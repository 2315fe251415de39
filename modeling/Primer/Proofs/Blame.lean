/-
Primer/Proofs/Blame.lean

The call that an error is about.

Three errors have a place for a call: the wrong number of arguments, division by zero and
overflow.  Primitives make them with the place left empty, because they do not see the call
that they serve.  Where a function is applied the place is filled in, and an error that is
on its way out is not changed any more.  So whatever an evaluation goes through before
it fails, the error names the one call whose function was being applied, and this call
stands in the program (`errors_name_their_call`).
-/
import Primer.Proofs.Functional.Invariant
import Primer.Proofs.Procedural.Course

namespace Primer

open Outcome

/-! ### Errors and their calls -/

/-- If the error has a place for a call, then `call` is in it; and if it is about the number
of arguments, then the function takes another number than `got`. -/
structure Error.About (call : Option String) (arity? : Option Nat) (got : Nat) (err : Error) :
    Prop where
  call_eq : ∀ c, err.call? = some c → c = call
  counts : ∀ wanted given c, err = .arity wanted given c →
    arity? = some wanted ∧ given = got ∧ wanted ≠ given

namespace Error.About

variable {call : Option String} {arity? : Option Nat} {got : Nat} {err : Error}

/-- Other errors are about no call. -/
theorem of_call?_eq_none (h : err.call? = none) : err.About call arity? got where
  call_eq c hc := by
    rw [h] at hc
    cases hc
  counts wanted given c heq := by
    rw [heq] at h
    cases h

theorem arity {arity got : Nat} (h : arity ≠ got) :
    (Error.arity arity got call).About call (some arity) got where
  call_eq c hc := (Option.some.inj hc).symm
  counts wanted given c heq := by
    cases heq
    exact ⟨rfl, rfl, h⟩

theorem divisionByZero : (Error.divisionByZero call).About call arity? got where
  call_eq c hc := (Option.some.inj hc).symm
  counts wanted given c heq := by cases heq

theorem overflow : (Error.overflow call).About call arity? got where
  call_eq c hc := (Option.some.inj hc).symm
  counts wanted given c heq := by cases heq

/-- The place for the call is filled in. -/
theorem inCall (h : err.About none arity? got) (call : String) :
    (err.inCall call).About (some call) arity? got := by
  cases err with
  | arity wanted given c =>
    obtain rfl := h.call_eq c rfl
    obtain ⟨rfl, rfl, hne⟩ := h.counts wanted given none rfl
    exact .arity hne
  | divisionByZero c =>
    obtain rfl := h.call_eq c rfl
    exact .divisionByZero
  | overflow c =>
    obtain rfl := h.call_eq c rfl
    exact .overflow
  | _ => exact .of_call?_eq_none rfl

end Error.About

/-! ### Errors of primitives -/

/-- An error is as it leaves a primitive: no call is known yet. -/
def Bare {α : Type} (arity got : Nat) (x : Except Error α) : Prop :=
  ∀ err, x = .error err → err.About none (some arity) got

namespace Bare

variable {α β : Type} {arity got : Nat}

theorem ok (a : α) : Bare arity got (.ok a) := fun _ h => by cases h

theorem error {err : Error} (h : err.About none (some arity) got) :
    Bare (α := α) arity got (.error err) := by
  intro err' heq
  cases heq
  exact h

theorem bind {x : Except Error α} {f : α → Except Error β} (hx : Bare arity got x)
    (hf : ∀ a, Bare arity got (f a)) : Bare arity got (x >>= f) := by
  cases x with
  | ok a => exact hf a
  | error err => exact .error (hx err rfl)

theorem inRange (result : Option Number) : Bare arity got (Arithmetic.inRange result) := by
  cases result with
  | none => exact .error .overflow
  | some n => exact .ok n

theorem div (a b : Number) : Bare arity got (Arithmetic.div a b) := by
  unfold Arithmetic.div
  split
  · exact .error .divisionByZero
  · exact .inRange _

end Bare

/-- The same of a primitive that writes. -/
def BareEnd (arity got : Nat) {α : Type} (o : Outcome Channel α) : Prop :=
  ∀ err out, o = .fault err out → err.About none (some arity) got

namespace BareEnd

variable {α β : Type} {arity got : Nat}

theorem value (a : α) (out : Channel) : BareEnd arity got (.value a out) := fun _ _ h => by cases h

theorem fault {err : Error} (h : err.About none (some arity) got) (out : Channel) :
    BareEnd (α := α) arity got (.fault err out) := by
  intro err' out' heq
  cases heq
  exact h

theorem ofExcept {x : Except Error α} (h : Bare arity got x) (out : Channel) :
    BareEnd arity got (.ofExcept x out) := fun err _ heq => h err (ofExcept_eq_fault heq).1

theorem andThen {o : Outcome Channel α} {f : α → Channel → Outcome Channel β}
    (ho : BareEnd arity got o) (hf : ∀ a out, BareEnd arity got (f a out)) :
    BareEnd arity got (o.andThen f) := by
  intro err out h
  rcases andThen_eq_fault_iff.1 h with hfirst | ⟨a, out₁, -, hrest⟩
  · exact ho err out hfirst
  · exact hf a out₁ err out hrest

theorem map {o : Outcome Channel α} (ho : BareEnd arity got o) (f : α → β) :
    BareEnd arity got (o.map f) := fun err out h => ho err out (map_eq_fault_iff.1 h)

theorem writeText (out : Channel) (text : Unit → String) :
    BareEnd arity got (out.writeText text) := by
  intro err out' h
  obtain ⟨reason, rfl⟩ := Channel.exists_reason_of_writeText h
  exact .of_call?_eq_none rfl

theorem write (out : Channel) (s : String) : BareEnd arity got (out.write s) := by
  intro err out' h
  obtain ⟨reason, rfl⟩ := Channel.exists_reason_of_write h
  exact .of_call?_eq_none rfl

theorem emitCharacter (out : Channel) (n : Number) :
    BareEnd arity got (Arithmetic.emitCharacter out n) := by
  unfold Arithmetic.emitCharacter
  split
  · exact .write out _
  · exact .fault (.of_call?_eq_none rfl) out

/-- The error of a call of a primitive. -/
theorem of_mapError {o : Outcome Channel α} {μ : Type} {m m' : Machine μ} {call : String}
    {err : Error} (ho : BareEnd arity got o)
    (h : (o.mapState m.withOut).mapError (fun e => e.inCall call) = .fault err m') :
    err.About (some call) (some arity) got := by
  obtain ⟨err', hstate, rfl⟩ := mapError_eq_fault_iff.1 h
  obtain ⟨out, hfault, -⟩ := mapState_eq_fault_iff.1 hstate
  exact (ho err' out hfault).inCall call

end BareEnd

/-! ### The functional language -/

namespace Functional

namespace Primitive

theorem bare_operand (p : Primitive) (v : Value) {arity got : Nat} :
    Bare arity got (p.operand v) := by
  unfold operand
  split
  · exact .ok _
  · exact .error (.of_call?_eq_none rfl)

theorem bare_operands (p : Primitive) (v w : Value) {arity got : Nat} :
    Bare arity got (p.operands v w) :=
  .bind (p.bare_operand v) fun _ => .bind (p.bare_operand w) fun _ => .ok _

/-- What is left to a primitive that only computes. -/
theorem bare_compute {p : Primitive} {args : List Value}
    (hprint : p = print ∨ p = println ∨ p = printu → args.length ≠ 1) :
    Bare p.arity args.length (p.compute args) := by
  fun_cases compute p args with
  | case1 | case2 | case3 =>
    exact .bind (bare_operands _ _ _) fun _ => .bind (.inRange _) fun _ => .ok _
  | case4 => exact .bind (bare_operands _ _ _) fun _ => .bind (.div _ _) fun _ => .ok _
  | case5 | case6 => exact .bind (bare_operands _ _ _) fun _ => .ok _
  | case10 | case12 | case19 => exact .error (.of_call?_eq_none rfl)
  | case20 =>
    refine .error (.arity fun hlen => ?_)
    -- as many arguments as the primitive takes are met by a case before this one
    replace hlen := hlen.symm
    cases p <;> simp only [arity, List.length_eq_one_iff, List.length_eq_two] at hlen <;> grind
  | _ => exact .ok _

theorem bare_run (p : Primitive) (args : List Value) (out : Channel) :
    BareEnd p.arity args.length (p.run args out) := by
  fun_cases run p args out with
  | case1 => exact .map (.write _ _) _
  | case2 | case3 => exact .map (.writeText _ _) _
  | case4 =>
    exact .andThen (.ofExcept (bare_operand _ _) _) fun _ _ => .map (.emitCharacter _ _) _
  | case5 =>
    refine .ofExcept (bare_compute ?_) _
    intro hp hlen
    obtain ⟨v, rfl⟩ := List.length_eq_one_iff.1 hlen
    rcases hp with rfl | rfl | rfl <;> simp_all

end Primitive

/-- How many arguments a function takes. -/
def Value.arity? : Value → Option Nat
  | closure f _ => some f.formals.length
  | primitive p => some p.arity
  | _ => none

variable {l : Limits} {c : Evaluation} {callee : Exp} {args : List Exp} {f : Value}
  {vs : List Value} {err : Error}

theorem Evaluation.Applies.length_eq {m : State} (hexp : c.exp = .apply callee args)
    (h : c.Applies l f vs m) : vs.length = args.length := by
  cases h with
  | intro _ hargs _ =>
    cases hexp
    exact length_of_evalEach hargs

/-- The error of a function that is applied is about the application. -/
theorem Evaluation.Misapplies.about (h : c.Misapplies l callee args f vs err) :
    err.About (some (Exp.apply callee args).text) f.arity? args.length := by
  obtain ⟨hexp, m, happlies, hfault⟩ := h
  -- a body would not have been evaluated, so one that never ends is as good as any
  have hfault := hfault fun _ _ m => .unfinished m
  rw [hexp] at hfault
  rw [← happlies.length_eq hexp]
  cases f with
  | closure lambda env =>
    simp only [applyValue] at hfault
    split at hfault
    · cases hfault
    · next hlen =>
      cases hfault
      exact .arity hlen
  | primitive p =>
    exact (p.bare_run vs m.console.out).of_mapError hfault
  | _ =>
    cases hfault
    exact .of_call?_eq_none rfl

/-! The code that an evaluation comes to is in its expression or in the functions that it can
reach. -/

/-- An expression is in the program: it occurs in `e`, or in the body of a function that can
be reached from the environment. -/
def State.InProgram (m : State) (env : Env) (e e' : Exp) : Prop :=
  e.Contains e' ∨ ∃ id b c, m.memory.store.Reachable env.frames id ∧
    b ∈ m.memory.store.frame id ∧ c ∈ b.2.closures ∧ c.1.body.Contains e'

/-- The expression may be evaluated: its applications are in the program, and it gets at
frames within reach or new ones only. -/
def InScope (m : State) (env : Env) (e : Exp) (e' : Exp) (env' : Env) : Prop :=
  (∀ callee args, e'.Contains (.apply callee args) → m.InProgram env e (.apply callee args)) ∧
    ∀ id ∈ env'.frames, Within m env id

/-- All code is in the program. -/
def programInvariant (m : State) (env : Env) (e : Exp) : Invariant where
  value := Value.AllClosures fun f env' => InScope m env e f.toExp env'
  scope := InScope m env e
  frame := Within m env
  number n c hc := by cases hc
  bool b c hc := by cases hc
  pair := by simp [Value.AllClosures, Value.closures, or_imp, forall_and]
  closure := by simp [Value.AllClosures, Value.closures]
  placeholder c hc := by cases hc
  literal _ := Value.allClosures_ofDatum _
  part h hpart := ⟨fun callee args hin => h.1 callee args (.head (.inl hpart) hin), h.2⟩
  body h hbody hid := by
    refine ⟨fun callee args hin => h.1 callee args (.head (.inr ⟨_, hbody⟩) hin), ?_⟩
    exact List.forall_mem_cons.2 ⟨hid, h.2⟩
  frames h := h.2

/-- The evaluation itself may begin. -/
theorem programInvariant_admits (left : Nat) (e : Exp) (env : Env) (m : State) :
    (programInvariant m env e).Admits ⟨left, e, env, m⟩ := by
  have hstore : m.memory.store.Holding (Within m env) fun f env' =>
      InScope m env e f.toExp env' := by
    refine holding_within fun id hid b hb c hc hframes => ⟨fun callee args hin => ?_, hframes⟩
    rcases hin.cases_head with heq | ⟨e', hpart | ⟨names, hbody⟩, hin⟩
    · cases heq
    · cases hpart
    · cases List.mem_singleton.1 hbody
      exact .inr ⟨id, b, c, hid, hb, hc, hin⟩
  exact ⟨hstore, fun callee args hin => .inl hin, fun id hid => .inl (.root hid)⟩

/-- An application that an evaluation comes to is in the program. -/
theorem Evaluation.Includes.inProgram {left : Nat} {e : Exp} {env : Env} {m : State}
    (h : Evaluation.Includes l ⟨left, e, env, m⟩ c) (hexp : c.exp = .apply callee args) :
    m.InProgram env e (.apply callee args) := by
  have hc := Invariant.admits_of_includes (programInvariant_admits left e env m) h
  exact hc.2.1 callee args (hexp ▸ .refl)

end Functional

/-! ### The procedural language -/

namespace Procedural

theorem Primitive.bare_run (p : Primitive) (args : List Number) (out : Channel) :
    BareEnd p.arity args.length (p.run args out) := by
  fun_cases run p args out with
  | case1 | case2 | case3 => exact .ofExcept (.inRange _) _
  | case4 => exact .ofExcept (.div _ _) _
  | case8 | case9 => exact .map (.write _ _) _
  | case10 => exact .map (.emitCharacter _ _) _
  | case11 =>
    refine .fault (.arity fun hlen => ?_) _
    replace hlen := hlen.symm
    cases p <;> simp only [arity, List.length_eq_one_iff, List.length_eq_two] at hlen <;> grind
  | _ => exact .value _ _

/-- How many arguments a function takes. -/
def Function.arity : Function → Nat
  | procedure p => p.formals.length
  | primitive p => p.arity

variable {l : Limits} {c : Evaluation} {function : String} {args : List Exp} {f : Function}
  {ns : List Number} {err : Error}

theorem Evaluation.Applies.length_eq {m : State} (hexp : c.exp = .call function args)
    (h : c.Applies l f ns m) : ns.length = args.length := by
  cases h with
  | intro _ hargs _ =>
    cases hexp
    exact length_of_evalEach hargs

/-- The error of a function that is applied is about the call. -/
theorem Evaluation.Misapplies.about (h : c.Misapplies l function args f ns err) :
    err.About (some (Exp.call function args).text) (some f.arity) args.length := by
  obtain ⟨hexp, m, happlies, hfault⟩ := h
  have hfault := hfault fun _ m => .unfinished m
  rw [hexp] at hfault
  rw [← happlies.length_eq hexp]
  cases f with
  | procedure p =>
    simp only [applyFunction] at hfault
    split at hfault
    · cases hfault
    · next hlen =>
      cases hfault
      exact .arity hlen
  | primitive p =>
    exact (p.bare_run ns m.console.out).of_mapError hfault

end Procedural

/-! ### Errors name their call -/

/-- **Errors name their call.**  If an evaluation ends with an error that has a place for a
call, in either language and from any state, then in its course it came to a call whose
function could not be applied to the values of the arguments, with just this error, and

* the place holds the text of that call;
* that call occurs in the expression itself, or in the body of a function that is there when
  the evaluation begins;
* if the error is about the number of arguments, it tells how many the function takes and
  how many are written in the call, and these numbers differ. -/
theorem errors_name_their_call (l : Limits) (left : Nat) (err : Error) (call : Option String)
    (hcall : err.call? = some call) :
    (∀ (e : Functional.Exp) (env : Functional.Env) (m m' : Functional.State),
      Functional.eval l left e env m = .fault err m' →
        ∃ c callee args f vs, Functional.Evaluation.Includes l ⟨left, e, env, m⟩ c ∧
          c.Misapplies l callee args f vs err ∧
          call = some (Functional.Exp.apply callee args).text ∧
          m.InProgram env e (.apply callee args) ∧
          ∀ wanted given, err = .arity wanted given call →
            f.arity? = some wanted ∧ given = args.length ∧ wanted ≠ given) ∧
    ∀ (e : Procedural.Exp) (m m' : Procedural.State),
      Procedural.eval l left e m = .fault err m' →
        ∃ c function args f ns, Procedural.Evaluation.Includes l ⟨left, e, m⟩ c ∧
          c.Misapplies l function args f ns err ∧
          call = some (Procedural.Exp.call function args).text ∧
          Procedural.InProgram m.memory.functions e (.call function args) ∧
          ∀ wanted given, err = .arity wanted given call →
            f.arity = wanted ∧ given = args.length ∧ wanted ≠ given := by
  have hsome : err.call?.isSome = true := by rw [hcall, Option.isSome_some]
  constructor
  · intro e env m m' h
    obtain ⟨c, callee, args, f, vs, hincludes, hmis⟩ :=
      Functional.Evaluation.exists_misapplies (c := ⟨left, e, env, m⟩) h hsome
    exact ⟨c, callee, args, f, vs, hincludes, hmis, hmis.about.call_eq call hcall,
      hincludes.inProgram hmis.1, fun wanted given => hmis.about.counts wanted given call⟩
  · intro e m m' h
    obtain ⟨c, function, args, f, ns, hincludes, hmis⟩ :=
      Procedural.Evaluation.exists_misapplies (c := ⟨left, e, m⟩) h hsome
    refine ⟨c, function, args, f, ns, hincludes, hmis, hmis.about.call_eq call hcall, ?_, ?_⟩
    · exact hmis.1 ▸ hincludes.inProgram.2
    · intro wanted given heq
      obtain ⟨harity, hgiven, hne⟩ := hmis.about.counts wanted given call heq
      exact ⟨Option.some.inj harity, hgiven, hne⟩

/-- A function that is called in the body of another one gets an argument too few.  The error is
about the call in the body, and not about the call that is being evaluated. -/
theorem errors_name_their_call_inside :
    let err := Error.arity 2 1 (some "(g x)")
    let f : Functional.Lambda := ⟨0, ["x"], .apply (.var "g") [.var "x"]⟩
    let g : Functional.Lambda := ⟨1, ["x", "y"], .var "y"⟩
    let e : Functional.Exp := .apply (.var "f") [.literal (.number .zero)]
    let m : Functional.State :=
      ⟨⟨⟨#[[("f", .closure f .globals), ("g", .closure g .globals)]]⟩, 2⟩, .empty, 0⟩
    let e' : Procedural.Exp := .call "f" [.literal .zero]
    let m' : Procedural.State := ⟨⟨.none, [], [
      ("f", .procedure ⟨["x"], [], .call "g" [.var "x"]⟩),
      ("g", .procedure ⟨["x", "y"], [], .var "y"⟩)]⟩, .empty, 0⟩
    ((∃ s, Functional.eval ⟨9, 9⟩ 9 e .globals m = .fault err s) ∧
      ∃ callee args, some "(g x)" = some (Functional.Exp.apply callee args).text ∧
        m.InProgram .globals e (.apply callee args) ∧ 1 = args.length) ∧
    (∃ s, Procedural.eval ⟨9, 9⟩ 9 e' m' = .fault err s) ∧
      ∃ function args, some "(g x)" = some (Procedural.Exp.call function args).text ∧
        Procedural.InProgram m'.memory.functions e' (.call function args) ∧ 1 = args.length := by
  intro err f g e m e' m'
  have hfault : ∃ s, Functional.eval ⟨9, 9⟩ 9 e .globals m = .fault err s := ⟨_, rfl⟩
  have hfault' : ∃ s, Procedural.eval ⟨9, 9⟩ 9 e' m' = .fault err s := ⟨_, rfl⟩
  have h := errors_name_their_call ⟨9, 9⟩ 9 err (some "(g x)") rfl
  refine ⟨⟨hfault, ?_⟩, hfault', ?_⟩
  · obtain ⟨s, hs⟩ := hfault
    obtain ⟨c, callee, args, f, vs, -, -, htext, hin, hcounts⟩ := h.1 e .globals m s hs
    exact ⟨callee, args, htext, hin, (hcounts 2 1 rfl).2.1⟩
  · obtain ⟨s, hs⟩ := hfault'
    obtain ⟨c, function, args, f, ns, -, -, htext, hin, hcounts⟩ := h.2 e' m' s hs
    exact ⟨function, args, htext, hin, (hcounts 2 1 rfl).2.1⟩

end Primer
