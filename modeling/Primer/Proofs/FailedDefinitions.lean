/-
Primer/Proofs/FailedDefinitions.lean

What a definition that fails leaves behind.

A definition takes effect and is then echoed (`define_eq_andThen_echo`), so it can
fail in two ways.  If the evaluation of its expression fails, or its formal
parameters repeat a name, then nothing has been bound: the state is the one in which
the evaluation ended, and an evaluation binds no global name and enters no function
(`Abandoned`).  If only the echo fails, since the output does not take it just then, the
definition has taken effect all the same (`Unechoed`).  There is no third way, whatever
goes wrong with the output and when (`failed_definition_is_abandoned_or_unechoed`).

That the names in the tables are what they were is a steady property, so every
evaluation keeps it.
-/
import Primer.Functional.Interpreter
import Primer.Procedural.Interpreter
import Primer.Proofs.Course
import Primer.Proofs.Procedural.Untraced
import Primer.Proofs.Steady

namespace Primer

open Outcome

/-! ### Definitions -/

/-- The state in which a definition has evaluated its expression.  A function definition
evaluates nothing. -/
def Definition.evaluated {ε φ μ α : Type} (eval : ε → Machine μ → Outcome (Machine μ) α) :
    Definition ε φ → Machine μ → Machine μ
  | .val _ e, m => (eval e m).state
  | .function _ _, m => m
  | .exp e, m => (eval e m).state

/-- What takes effect after an evaluation cannot fail. -/
theorem Outcome.eq_fault_of_andThen_value {σ α β : Type} {o : Outcome σ α} {f : α → β}
    {change : α → σ → σ} {e : Error} {t : σ}
    (h : (o.andThen fun a s => .value (f a) (change a s)) = .fault e t) : o = .fault e t := by
  cases o with
  | value a s => cases h
  | fault e s => cases h; rfl
  | unfinished s => cases h

/-- Only the echo of a definition failed.  Without an echo it is `quiet` and takes effect.
The output does not take the echo then, which is the error, and part of the echo may have
been written; everything else is as it is without an echo. -/
structure Unechoed {μ α : Type} (echo : Echo) (quiet : Outcome (Machine μ) α) (e : Error)
    (m' : Machine μ) : Prop where
  on : echo = .on
  effect : ∃ a s f part, quiet = .value a s ∧ s.console.out.writing.now = some f ∧
    e = .channel f.reason ∧ m' = s.withOut (s.console.out.wrote part)

/-- An echo fails only if it is on and the output does not take it. -/
theorem Machine.exists_of_echo_eq_fault {μ : Type} {m m' : Machine μ} {echo : Echo}
    {line : Unit → String} {e : Error} (h : m.echo echo line = .fault e m') :
    echo = .on ∧ ∃ f part, m.console.out.writing.now = some f ∧ e = .channel f.reason ∧
      m' = m.withOut (m.console.out.wrote part) := by
  cases echo with
  | off => cases h
  | on =>
    obtain ⟨out, hwrite, hm'⟩ := mapState_eq_fault_iff.1 h
    unfold Channel.writeLine Channel.writeText at hwrite
    split at hwrite
    · cases hwrite
    · next f hnow =>
      cases hwrite
      exact ⟨rfl, f, _, hnow, rfl, hm'.symm⟩

/-- A definition that is echoed after it took effect fails as it fails without the echo, or
because of the echo. -/
theorem fault_or_unechoed {μ α : Type} {echo : Echo} {m' : Machine μ}
    {quiet : Outcome (Machine μ) α} {line : α → Machine μ → Unit → String} {e : Error}
    (h : (quiet.andThen fun a s => (s.echo echo (line a s)).map fun _ => a) = .fault e m') :
    quiet = .fault e m' ∨ Unechoed echo quiet e m' := by
  rcases andThen_eq_fault_iff.1 h with hquiet | ⟨a, s, rfl, hecho⟩
  · exact .inl hquiet
  · obtain ⟨hon, f, part, hnow, he, hm'⟩ :=
      Machine.exists_of_echo_eq_fault (map_eq_fault_iff.1 hecho)
    exact .inr ⟨hon, a, s, f, part, rfl, hnow, he, hm'⟩

/-! ### The functional language -/

namespace Functional

/-- The names of the global variables. -/
def State.globalNames (m : State) : List String := (m.memory.store.frame Env.globals.inner).names

/-- An evaluation binds no global name. -/
theorem globalNames_evalGlobal {m : State} (hm : 0 < m.memory.store.frames.size) (l : Limits)
    (e : Exp) : (evalGlobal l e m).state.globalNames = m.globalNames := by
  have hsteady : Store.Steady fun s =>
      0 < s.frames.size ∧ (s.frame Env.globals.inner).names = m.globalNames :=
    { extend := by
        rintro s env pairs ⟨hsize, hnames⟩
        refine ⟨by simp, ?_⟩
        rw [@Store.frame_extend s Env.globals.inner hsize]
        exact hnames
      update := by
        rintro s id x v ⟨hsize, hnames⟩ hx
        refine ⟨by simpa using hsize, ?_⟩
        rw [Store.frame_update_eq]
        split
        · next h =>
          rw [Bindings.names_set, if_pos hx, ← h.1]
          exact hnames
        · exact hnames }
  exact (keeps_eval hsteady l l.depth (m.load e).1 .globals (m.load e).2 ⟨hm, rfl⟩).2

/-- A definition was given up before it bound anything.  The state is the one in which it
had evaluated its expression; so its name, too, is bound to what it was bound to then. -/
structure Abandoned (l : Limits) (d : Definition Exp Lambda) (m m' : State) : Prop where
  names : m'.globalNames = m.globalNames
  state : m' = d.evaluated (evalGlobal l) m

/-- The line that a definition prints. -/
def echoLine : Definition Exp Lambda → Value → Unit → String
  | .val name _, v => fun _ => echoText name v
  | .function name _, _ => fun _ => name
  | .exp _, v => fun _ => v.text

/-- A definition takes effect, and then it is echoed. -/
theorem define_eq_andThen_echo (l : Limits) (echo : Echo) (d : Definition Exp Lambda) (m : State) :
    define l echo d m
      = (define l .off d m).andThen fun v s => (s.echo echo (echoLine d v)).map fun _ => v := by
  cases d with
  | val name e =>
    simp only [define]
    cases evalGlobal l e m <;> rfl
  | function name f =>
    simp only [define]
    cases repeated? f.formals <;> rfl
  | exp e =>
    simp only [define]
    cases evalGlobal l e m <;> rfl

/-- A definition that fails without an echo was given up. -/
theorem abandoned_of_define_off {l : Limits} {d : Definition Exp Lambda} {m m' : State} {e : Error}
    (hm : 0 < m.memory.store.frames.size) (h : define l .off d m = .fault e m') :
    Abandoned l d m m' := by
  have hexp : ∀ exp, evalGlobal l exp m = .fault e m' →
      m'.globalNames = m.globalNames ∧ m' = (evalGlobal l exp m).state := by
    intro exp hexp
    have hnames := globalNames_evalGlobal hm l exp
    rw [hexp] at hnames ⊢
    exact ⟨hnames, rfl⟩
  cases d with
  | val name exp =>
    obtain ⟨hnames, hstate⟩ := hexp exp (eq_fault_of_andThen_value h)
    exact ⟨hnames, hstate⟩
  | function name f =>
    simp only [define] at h
    split at h
    · cases h
      exact ⟨rfl, rfl⟩
    · cases h
  | exp exp =>
    obtain ⟨hnames, hstate⟩ := hexp exp (eq_fault_of_andThen_value h)
    exact ⟨hnames, hstate⟩

end Functional

/-! ### The procedural language -/

namespace Procedural

/-- The names of the global variables. -/
def State.globalNames (m : State) : List String := m.memory.globals.names

/-- An evaluation binds no global variable and enters no function in the table. -/
theorem tables_evalGlobal (l : Limits) (e : Exp) (m : State) :
    (evalGlobal l e m).state.globalNames = m.globalNames ∧
      (evalGlobal l e m).state.memory.functions = m.memory.functions := by
  have hsteady : Memory.Steady fun memory =>
      memory.globals.names = m.globalNames ∧ memory.functions = m.memory.functions :=
    { assign := fun {m₁ m₂ x n} hm₁ h => by
        refine ⟨?_, (Memory.functions_assign? h).trans hm₁.2⟩
        unfold Memory.assign? at h
        repeat' split at h
        all_goals cases h
        · exact hm₁.1
        · exact hm₁.1
        · next hx => rw [Bindings.names_set, if_pos hx, hm₁.1]
      scopes := fun _ hm => hm }
  exact keeps_inScopes hsteady (keeps_eval hsteady l l.depth e) .none m ⟨rfl, rfl⟩

/-- A definition was given up before it bound anything or entered a function.  The state is
the one in which it had evaluated its expression. -/
structure Abandoned (l : Limits) (d : Definition Exp Procedure) (m m' : State) : Prop where
  names : m'.globalNames = m.globalNames
  functions : m'.memory.functions = m.memory.functions
  state : m' = d.evaluated (evalGlobal l) m

/-- The line that a definition prints, from the state in which it has taken effect. -/
def echoLine : Definition Exp Procedure → State → Unit → String
  | .val name _, m => fun _ => ((m.global? name).map Number.text).getD ""
  | .function name _, _ => fun _ => name
  | .exp _, m => fun _ => ((m.global? itName).map Number.text).getD ""

/-- A definition takes effect, and then it is echoed. -/
theorem define_eq_andThen_echo (l : Limits) (echo : Echo) (d : Definition Exp Procedure)
    (m : State) :
    define l echo d m
      = (define l .off d m).andThen fun _ s => (s.echo echo (echoLine d s)).map fun _ => () := by
  have hunit : ∀ o : Outcome State Unit, (o.map fun _ => ()) = o := by
    intro o
    cases o <;> rfl
  have hget : ∀ (s : State) (name : String) (n : Number),
      (s.defineGlobal name n).global? name = some n :=
    fun s name n => Bindings.get?_set_self name n s.memory.globals
  simp only [hunit]
  cases d with
  | val name e =>
    simp only [define]
    cases evalGlobal l e m with
    | value n s => simp [Machine.echo, echoLine, hget]
    | fault e s => rfl
    | unfinished s => rfl
  | function name p =>
    simp only [define]
    cases repeated? p.formals <;> rfl
  | exp e =>
    simp only [define]
    cases evalGlobal l e m with
    | value n s => simp [Machine.echo, echoLine, hget]
    | fault e s => rfl
    | unfinished s => rfl

/-- A definition that fails without an echo was given up. -/
theorem abandoned_of_define_off {l : Limits} {d : Definition Exp Procedure} {m m' : State}
    {e : Error} (h : define l .off d m = .fault e m') : Abandoned l d m m' := by
  have hexp : ∀ exp, evalGlobal l exp m = .fault e m' →
      m'.globalNames = m.globalNames ∧ m'.memory.functions = m.memory.functions ∧
        m' = (evalGlobal l exp m).state := by
    intro exp hexp
    obtain ⟨hnames, hfunctions⟩ := tables_evalGlobal l exp m
    rw [hexp] at hnames hfunctions ⊢
    exact ⟨hnames, hfunctions, rfl⟩
  cases d with
  | val name exp =>
    obtain ⟨hnames, hfunctions, hstate⟩ := hexp exp (eq_fault_of_andThen_value h)
    exact ⟨hnames, hfunctions, hstate⟩
  | function name p =>
    simp only [define] at h
    split at h
    · cases h
      exact ⟨rfl, rfl, rfl⟩
    · cases h
  | exp exp =>
    obtain ⟨hnames, hfunctions, hstate⟩ := hexp exp (eq_fault_of_andThen_value h)
    exact ⟨hnames, hfunctions, hstate⟩

end Procedural

/-! ### Either way -/

/-- **A definition that fails was given up, or only its echo failed.**  In the one case the
global names and the function table are as before, and every name is bound to what it was
bound to when the evaluation of the expression ended.  In the other the echo is on, the
output does not take it, with the error that the definition ends in, and the definition has
taken effect as it does without an echo.  Nothing is asked of the output here: it may fail at
one time and not at another. -/
theorem failed_definition_is_abandoned_or_unechoed (l : Limits) (echo : Echo) :
    (∀ (d : Definition Functional.Exp Functional.Lambda) (m m' : Functional.State) (e : Error),
      0 < m.memory.store.frames.size → Functional.define l echo d m = .fault e m' →
        Functional.Abandoned l d m m' ∨ Unechoed echo (Functional.define l .off d m) e m') ∧
    (∀ (d : Definition Procedural.Exp Procedural.Procedure) (m m' : Procedural.State) (e : Error),
      Procedural.define l echo d m = .fault e m' →
        Procedural.Abandoned l d m m' ∨ Unechoed echo (Procedural.define l .off d m) e m') := by
  refine ⟨fun d m m' e hm h => ?_, fun d m m' e h => ?_⟩
  · rw [Functional.define_eq_andThen_echo] at h
    exact (fault_or_unechoed h).imp_left (Functional.abandoned_of_define_off hm)
  · rw [Procedural.define_eq_andThen_echo] at h
    exact (fault_or_unechoed h).imp_left Procedural.abandoned_of_define_off

/-- An expression that assigns to a global variable and then fails, and a definition that
cannot be echoed, although its expression could be printed from. -/
theorem failed_definition_is_abandoned_or_unechoed_both :
    let l : Limits := ⟨9, 9⟩
    let later : Channel :=
      ⟨"", ⟨0, fun n => if n = 1 then some ⟨"stream closed", 1⟩ else none⟩, .never⟩
    let m : Functional.State := (Functional.State.initial .empty).defineGlobal "y" (.bool true)
    let d : Definition Functional.Exp Functional.Lambda :=
      .val "x" (.block [.set "y" (.literal (.bool false)),
        .apply (.var "car") [.literal (.list [])]])
    let n : Procedural.State := .initial ⟨later, .empty⟩
    let d' : Definition Procedural.Exp Procedural.Procedure :=
      .val "x" (.call "print" [.literal .zero])
    (∃ e m', 0 < m.memory.store.frames.size ∧ Functional.define l .on d m = .fault e m' ∧
      m'.global? "y" = some (.bool false) ∧
        (Functional.Abandoned l d m m' ∨ Unechoed .on (Functional.define l .off d m) e m')) ∧
    ∃ e n', Procedural.define l .on d' n = .fault e n' ∧ n'.global? "x" = some .zero ∧
      n'.console.out.text = "00" ∧
        (Procedural.Abandoned l d' n n' ∨ Unechoed .on (Procedural.define l .off d' n) e n') := by
  intro l later m d n d'
  refine ⟨⟨_, _, by decide, rfl, rfl, ?_⟩, ⟨_, _, rfl, rfl, by decide +kernel, ?_⟩⟩
  · exact (failed_definition_is_abandoned_or_unechoed l .on).1 d m _ _ (by decide) rfl
  · exact (failed_definition_is_abandoned_or_unechoed l .on).2 d' n _ _ rfl

/-- Where the echo of a definition fails, the definition fails, and yet there is a global
variable more than before. -/
theorem failed_definition_that_binds :
    let l : Limits := ⟨9, 9⟩
    let broken : Console := ⟨⟨"", .always ⟨"stream closed", 0⟩, .never⟩, .empty⟩
    let m : Functional.State := .initial broken
    let n : Procedural.State := .initial broken
    (∃ m', Functional.define l .on (.val "x" (.literal (.bool true))) m
        = .fault (.channel "stream closed") m' ∧
      m'.globalNames ≠ m.globalNames ∧ m.global? "x" = none ∧
        m'.global? "x" = some (.bool true)) ∧
    ∃ n', Procedural.define l .on (.val "x" (.literal .zero)) n
        = .fault (.channel "stream closed") n' ∧
      n'.globalNames ≠ n.globalNames ∧ n.global? "x" = none ∧ n'.global? "x" = some .zero := by
  intro l broken m n
  refine ⟨⟨_, rfl, by decide, rfl, rfl⟩, ⟨_, rfl, by decide, rfl, rfl⟩⟩

end Primer
