/-
Primer/Proofs/LoopFree.lean

Without loops every evaluation ends.

A call may call itself, but each call is a level deeper and the levels run out.
So nothing but a loop can keep an evaluation from its end, and an evaluation that
never comes upon a loop needs no bound on turns (`loopFree_evaluation_ends`).

Which loops an evaluation can come upon is not a matter of its expression alone:
it calls closures that it finds in frames, or entries of the function table.
`Outcome.Halts` therefore carries, along with the end itself, that none of these
has a loop in it.  For the functional language the frames in question are a set
`P` that stays the same during the evaluation: those that can be reached from its
environment, and those that do not exist yet (`Within`).
-/
import Primer.Proofs.DepthLimit
import Primer.Proofs.Functional.Closures
import Primer.Proofs.Procedural.Journal

namespace Primer

/-! ### Computations that end -/

namespace Outcome

variable {σ α β ι : Type} {S : σ → Prop} {V : α → Prop} {U : β → Prop}

/-- A computation that ended, in a state with `S`, and with a value with `V` if it
has one. -/
inductive Halts (S : σ → Prop) (V : α → Prop) : Outcome σ α → Prop
  | value {a : α} {s : σ} : S s → V a → Halts S V (.value a s)
  | fault {e : Error} {s : σ} : S s → Halts S V (.fault e s)

namespace Halts

theorem finished {o : Outcome σ α} (h : Halts S V o) : o.finished = true := by
  cases h <;> rfl

theorem andThen {o : Outcome σ α} {f : α → σ → Outcome σ β} (h : Halts S V o)
    (hf : ∀ a s, S s → V a → Halts S U (f a s)) : Halts S U (o.andThen f) := by
  cases h with
  | value hs ha => exact hf _ _ hs ha
  | fault hs => exact .fault hs

theorem mapState {S' : σ → Prop} {f : σ → σ} {o : Outcome σ α} (h : Halts S V o)
    (hf : ∀ s, S s → S' (f s)) : Halts S' V (o.mapState f) := by
  cases h with
  | value hs ha => exact .value (hf _ hs) ha
  | fault hs => exact .fault (hf _ hs)

theorem evalEach {f : ι → σ → Outcome σ α} {as : List ι} {s : σ} (hs : S s)
    (hf : ∀ a ∈ as, ∀ s, S s → Halts S V (f a s)) :
    Halts S (fun bs => ∀ b ∈ bs, V b) (Primer.evalEach f as s) := by
  induction as generalizing s with
  | nil => exact .value hs (List.forall_mem_nil V)
  | cons a as ih =>
    refine (hf a List.mem_cons_self s hs).andThen fun b s₁ hs₁ hb => ?_
    refine (ih hs₁ fun a' ha' => hf a' (List.mem_cons_of_mem a ha')).andThen ?_
    intro bs s₂ hs₂ hbs
    exact .value hs₂ (List.forall_mem_cons.2 ⟨hb, hbs⟩)

theorem evalLast {f : ι → σ → Outcome σ α} {as : List ι} {s : σ} {b : α} (hs : S s) (hb : V b)
    (hf : ∀ a ∈ as, ∀ s, S s → Halts S V (f a s)) : Halts S V (Primer.evalLast f b as s) := by
  induction as generalizing s b with
  | nil => exact .value hs hb
  | cons a as ih =>
    refine (hf a List.mem_cons_self s hs).andThen fun b' s₁ hs₁ hb' => ?_
    exact ih hs₁ hb' fun a' ha' => hf a' (List.mem_cons_of_mem a ha')

end Halts

end Outcome

open Outcome

/-! ### Calls under the trace -/

namespace Trace

variable {μ α : Type} {S : μ → Prop} {V : α → Prop} {m : Machine μ}

theorem halts_diagLine (hm : S m.memory) (line : Unit → String) :
    Halts (fun s => S s.memory) (fun _ => True) (m.diagLine line) := by
  unfold Machine.diagLine Channel.writeLine Channel.writeText
  split
  · exact .value hm trivial
  · exact .fault hm

theorem halts_enter {count : Option Number} {spend : Number → Machine μ → Machine μ}
    (hm : S m.memory) (hspend : ∀ n s, S s.memory → S (spend n s).memory)
    (call : Unit → String) :
    Halts (fun s => S s.memory) (fun _ => True) (enter count spend call m) := by
  unfold enter
  split
  · exact .value hm trivial
  · split
    · refine (halts_diagLine hm _).andThen fun _ s hs _ => ?_
      refine Halts.andThen (V := fun _ => True) ?_ fun _ t ht _ => .value ht trivial
      unfold noteLast
      split
      · exact halts_diagLine (hspend _ s hs) _
      · exact .value (hspend _ s hs) trivial
    · exact .value hm trivial

theorem halts_leaveCall {o : Outcome (Machine μ) α} (call : String) (render : α → String)
    (h : Halts (fun s => S s.memory) V o) :
    Halts (fun s => S s.memory) V (leaveCall call render o) := by
  cases h with
  | fault hs => exact .fault hs
  | @value a s hs ha =>
    have hline := halts_diagLine (m := { s with indent := outdent s.indent }) hs fun _ =>
      closingLine (outdent s.indent) call (render a)
    simp only [leaveCall]
    generalize Machine.diagLine _ _ = line at hline ⊢
    cases hline with
    | value ht _ => exact .value ht ha
    | fault ht => exact .fault ht

/-- A call ends under the trace if it ends without, where all that matters of a state
is its memory. -/
theorem halts_around {count : Option Number} {spend : Number → Machine μ → Machine μ}
    {call : Unit → String} {render : α → String} {run : Machine μ → Outcome (Machine μ) α}
    (hm : S m.memory) (hspend : ∀ n s, S s.memory → S (spend n s).memory)
    (hrun : ∀ s : Machine μ, S s.memory → Halts (fun s => S s.memory) V (run s)) :
    Halts (fun s => S s.memory) V (around count spend call render run m) := by
  refine (halts_enter hm hspend call).andThen fun traced s hs _ => ?_
  split
  · exact halts_leaveCall _ _ (hrun s hs)
  · exact hrun s hs

end Trace

/-! ### The functional language -/

namespace Functional

namespace Exp

mutual

/-- There is no loop anywhere in an expression. -/
def loopFree : Exp → Bool
  | literal _ => true
  | var _ => true
  | set _ e => loopFree e
  | cond test yes no => loopFree test && loopFree yes && loopFree no
  | loop _ _ => false
  | block parts => loopFreeEach parts
  | apply callee args => loopFree callee && loopFreeEach args
  | lambda _ _ body => loopFree body
  | bind _ bindings body => loopFreeInitial bindings && loopFree body

def loopFreeEach : List Exp → Bool
  | [] => true
  | e :: es => loopFree e && loopFreeEach es

/-- There is no loop in initial values. -/
def loopFreeInitial : List (String × Exp) → Bool
  | [] => true
  | (_, e) :: bs => loopFree e && loopFreeInitial bs

end

theorem loopFreeEach_iff {es : List Exp} :
    loopFreeEach es = true ↔ ∀ e ∈ es, e.loopFree = true := by
  induction es with
  | nil => simp [loopFreeEach]
  | cons e es ih => simp [loopFreeEach, ih]

theorem loopFreeInitial_iff {bs : List (String × Exp)} :
    loopFreeInitial bs = true ↔ ∀ b ∈ bs, b.2.loopFree = true := by
  induction bs with
  | nil => simp [loopFreeInitial]
  | cons b bs ih => simp [loopFreeInitial, ih]

theorem loopFree_bind {kind : LetKind} {bindings : List (String × Exp)} {body : Exp} :
    (bind kind bindings body).loopFree = true
      ↔ (∀ b ∈ bindings, b.2.loopFree = true) ∧ body.loopFree = true := by
  simp only [loopFree, Bool.and_eq_true, loopFreeInitial_iff]

end Exp

variable {P : FrameId → Prop}

/-- An expression without loops, in an environment within `P`. -/
def Straight (P : FrameId → Prop) (e : Exp) (env : Env) : Prop :=
  e.loopFree = true ∧ ∀ id ∈ env.frames, P id

/-- The closures in a value have no loops and are within `P`. -/
def Value.Straight (P : FrameId → Prop) (v : Value) : Prop :=
  ∀ c ∈ v.closures, Functional.Straight P c.1.body c.2

/-- All frames within `P` hold closures that have no loops and are within `P`; and so
does every frame to come. -/
structure Memory.Straight (P : FrameId → Prop) (m : Memory) : Prop where
  later : ∀ id, m.store.frames.size ≤ id → P id
  values : ∀ id, P id → ∀ b ∈ m.store.frame id, b.2.Straight P

theorem Value.straight_ofDatum (d : Datum) : (Value.ofDatum d).Straight P :=
  Value.allClosures_ofDatum (C := fun f => Functional.Straight P f.body) d

/-- What a primitive makes has no closures but those of its arguments. -/
theorem Primitive.straight_run {p : Primitive} {args : List Value} {out out' : Channel} {v : Value}
    (h : p.run args out = .value v out') (hargs : ∀ a ∈ args, a.Straight P) : v.Straight P :=
  Primitive.allClosures_run (C := fun f => Functional.Straight P f.body) h hargs

theorem Primitive.finished_run (p : Primitive) (args : List Value) (out : Channel) :
    (p.run args out).finished = true := by
  unfold run
  split
  · simp
  · simp
  · simp [Channel.writeLine]
  · next v =>
    cases operand .printu v with
    | ok n => exact (finished_map _ _).trans (Channel.finished_emitCharacter out n)
    | error e => rfl
  · simp

namespace Memory.Straight

variable {m : State} {env : Env}

theorem holding (hm : m.memory.Straight P) :
    m.memory.store.Holding P fun f => Functional.Straight P f.body :=
  ⟨hm.later, hm.values⟩

theorem of_holding (h : m.memory.store.Holding P fun f => Functional.Straight P f.body) :
    m.memory.Straight P :=
  ⟨h.later, h.values⟩

theorem get? (hm : m.memory.Straight P) (henv : ∀ id ∈ env.frames, P id) {x : String} {v : Value}
    (h : m.memory.store.get? env x = some v) : v.Straight P :=
  hm.holding.get? henv h

theorem update (hm : m.memory.Straight P) (id : FrameId) (x : String) {v : Value}
    (hv : v.Straight P) : (m.mapStore fun s => s.update id x v).memory.Straight P :=
  of_holding (hm.holding.update id x hv)

theorem extend (hm : m.memory.Straight P) (env : Env) {pairs : List (String × Value)}
    (hpairs : ∀ b ∈ pairs, b.2.Straight P) : (m.extend env pairs).2.memory.Straight P :=
  of_holding (hm.holding.extend env hpairs)

/-- A new frame is one of those to come. -/
theorem inside (hm : m.memory.Straight P) (henv : ∀ id ∈ env.frames, P id) :
    ∀ id ∈ (m.inside env).frames, P id :=
  hm.holding.inside henv

theorem setTraceCount (hm : m.memory.Straight P) (env : Env) (n : Number) :
    (State.setTraceCount env n m).memory.Straight P := by
  unfold State.setTraceCount
  split
  · exact hm.update _ _ (List.forall_mem_nil _)
  · exact hm

end Memory.Straight

/-- An evaluation that ended, with nothing in sight that has a loop. -/
abbrev HaltsStraight (P : FrameId → Prop) : Outcome State Value → Prop :=
  Halts (fun s => s.memory.Straight P) (Value.Straight P)

variable {m : State} {env : Env}

theorem straight_zip {names : List String} {vs : List Value} (h : ∀ v ∈ vs, v.Straight P) :
    ∀ b ∈ names.zip vs, b.2.Straight P :=
  fun b hb => h b.2 (List.of_mem_zip hb).2

theorem halts_applyValue {body : Exp → Env → State → Outcome State Value}
    (hbody : ∀ e env m, Straight P e env → m.memory.Straight P → HaltsStraight P (body e env m))
    (call callee : Exp) {f : Value} {args : List Value} (hf : f.Straight P)
    (hargs : ∀ a ∈ args, a.Straight P) (hm : m.memory.Straight P) :
    HaltsStraight P (applyValue body call callee f args m) := by
  cases f with
  | closure lambda env =>
    obtain ⟨hfree, henv⟩ := hf (lambda, env) List.mem_cons_self
    simp only [applyValue]
    split
    · exact hbody _ _ _ ⟨hfree, hm.inside henv⟩ (hm.extend env (straight_zip hargs))
    · exact .fault hm
  | primitive p =>
    have hfinished := p.finished_run args m.console.out
    simp only [applyValue, applyPrimitive]
    cases h : p.run args m.console.out with
    | value v out => exact .value hm (Primitive.straight_run h hargs)
    | fault e out => exact .fault hm
    | unfinished out =>
      rw [h] at hfinished
      cases hfinished
  | _ => exact .fault hm

/-- The frames of sequential bindings, one inside the other. -/
theorem halts_bindEach {evalIn : Exp → Env → State → Outcome State Value}
    (heval : ∀ e env m, Straight P e env → m.memory.Straight P → HaltsStraight P (evalIn e env m))
    {bindings : List (String × Exp)} (hfree : ∀ b ∈ bindings, b.2.loopFree = true)
    (henv : ∀ id ∈ env.frames, P id) (hm : m.memory.Straight P) :
    Halts (fun s => s.memory.Straight P) (fun inner => ∀ id ∈ inner.frames, P id)
      (bindEach evalIn bindings env m) := by
  induction bindings generalizing env m with
  | nil => exact .value hm henv
  | cons b bs ih =>
    refine (heval b.2 env m ⟨hfree b List.mem_cons_self, henv⟩ hm).andThen fun v s hs hv => ?_
    exact ih (fun b' hb' => hfree b' (List.mem_cons_of_mem b hb')) (hs.inside henv)
      (hs.extend env (List.forall_mem_singleton.2 hv))

/-- The closures of recursive bindings. -/
theorem straight_closeIn {e : Exp} (he : Straight P e env) : (e.closeIn env).Straight P := by
  cases e with
  | lambda label formals body => exact List.forall_mem_singleton.2 he
  | _ => exact List.forall_mem_nil _

/-- One level of evaluation, from the levels below. -/
theorem halts_eval_succ (l : Limits) {left : Nat}
    (ih : ∀ e env m, Straight P e env → m.memory.Straight P →
      HaltsStraight P (eval l left e env m))
    {e : Exp} (he : Straight P e env) (hm : m.memory.Straight P) :
    HaltsStraight P (eval l (left + 1) e env m) := by
  obtain ⟨hfree, henv⟩ := he
  have hpart : ∀ part, part.loopFree = true → ∀ s : State, s.memory.Straight P →
      HaltsStraight P (eval l left part env s) :=
    fun part hpart s hs => ih part env s ⟨hpart, henv⟩ hs
  cases e with
  | literal d => exact .value hm (Value.straight_ofDatum d)
  | var x =>
    simp only [eval]
    split
    · next h => exact .value hm (hm.get? henv h)
    · exact .fault hm
  | set x e =>
    refine (hpart e hfree m hm).andThen fun v s hs hv => ?_
    split
    · exact .value (hs.update _ x hv) hv
    · exact .fault hs
  | cond test yes no =>
    obtain ⟨⟨htest, hyes⟩, hno⟩ : (test.loopFree = true ∧ yes.loopFree = true)
        ∧ no.loopFree = true := by simpa [Exp.loopFree] using hfree
    refine (hpart test htest m hm).andThen fun v s hs _ => ?_
    split
    · exact hpart yes hyes s hs
    · exact hpart no hno s hs
  | loop test body => cases hfree
  | block parts =>
    exact .evalLast hm (List.forall_mem_nil _) fun e he =>
      hpart e (Exp.loopFreeEach_iff.1 hfree e he)
  | apply callee args =>
    obtain ⟨hcallee, hargs⟩ : callee.loopFree = true ∧ Exp.loopFreeEach args = true := by
      simpa [Exp.loopFree] using hfree
    refine (hpart callee hcallee m hm).andThen fun f s hs hf => ?_
    have hparts : ∀ e ∈ args, ∀ s : State, s.memory.Straight P →
        HaltsStraight P (eval l left e env s) :=
      fun e he => hpart e (Exp.loopFreeEach_iff.1 hargs e he)
    refine (Halts.evalEach (S := fun s : State => s.memory.Straight P) hs hparts).andThen ?_
    intro vs s hs hvs
    exact Trace.halts_around hs (fun n t ht => Memory.Straight.setTraceCount ht env n)
      fun t ht => halts_applyValue ih _ _ hf hvs ht
  | lambda label formals body => exact .value hm (List.forall_mem_singleton.2 ⟨hfree, henv⟩)
  | bind kind bindings body =>
    obtain ⟨hinitial, hbody⟩ := Exp.loopFree_bind.1 hfree
    cases kind with
    | plain =>
      have hparts : ∀ b ∈ bindings, ∀ s : State, s.memory.Straight P →
          HaltsStraight P (eval l left b.2 env s) := fun b hb => hpart b.2 (hinitial b hb)
      refine (Halts.evalEach (S := fun s : State => s.memory.Straight P) hm hparts).andThen ?_
      intro vs s hs hvs
      exact ih body _ _ ⟨hbody, hs.inside henv⟩ (hs.extend env (straight_zip hvs))
    | sequential =>
      refine (halts_bindEach ih hinitial henv hm).andThen fun inner s hs hinner => ?_
      exact ih body inner s ⟨hbody, hinner⟩ hs
    | recursive =>
      cases hlambda : nonLambda? bindings with
      | some e =>
        simp only [eval, hlambda]
        exact .fault hm
      | none =>
        cases left with
        | zero =>
          rw [eval_recursive_zero hlambda]
          refine .fault (hm.extend env fun b hb => ?_)
          obtain ⟨_, -, rfl⟩ := List.mem_map.1 hb
          exact List.forall_mem_nil _
        | succ left =>
          rw [eval_recursive_succ hlambda]
          refine ih body _ _ ⟨hbody, hm.inside henv⟩ (hm.extend env (straight_zip fun v hv => ?_))
          obtain ⟨b, hb, rfl⟩ := List.mem_map.1 hv
          exact straight_closeIn ⟨hinitial b hb, hm.inside henv⟩

/-- An evaluation that comes upon no loop ends. -/
theorem halts_eval (l : Limits) (left : Nat) {e : Exp} (he : Straight P e env)
    (hm : m.memory.Straight P) : HaltsStraight P (eval l left e env m) := by
  induction left generalizing e env m with
  | zero => exact .fault hm
  | succ left ih => exact halts_eval_succ l (fun e env m he hm => ih he hm) he hm

/-- An expression without loops, in an environment that gives it no function with a
loop to call. -/
structure LoopFree (e : Exp) (env : Env) (m : State) : Prop where
  exp : e.loopFree = true
  functions : ∀ id, m.memory.store.Reachable env.frames id → ∀ b ∈ m.memory.store.frame id,
    ∀ c ∈ b.2.closures, c.1.body.loopFree = true

theorem LoopFree.straight {e : Exp} (h : LoopFree e env m) :
    m.memory.Straight (Within m env) :=
  .of_holding (holding_within fun id hid b hb c hc hwithin =>
    ⟨h.functions id hid b hb c hc, hwithin⟩)

theorem LoopFree.finished {e : Exp} (h : LoopFree e env m) (l : Limits) (left : Nat) :
    (eval l left e env m).finished = true :=
  (halts_eval l left ⟨h.exp, fun _ hid => .inl (.root hid)⟩ h.straight).finished

end Functional

/-! ### The procedural language -/

namespace Procedural

namespace Exp

mutual

/-- There is no loop anywhere in an expression. -/
def loopFree : Exp → Bool
  | literal _ => true
  | var _ => true
  | set _ e => loopFree e
  | cond test yes no => loopFree test && loopFree yes && loopFree no
  | loop _ _ => false
  | block parts => loopFreeEach parts
  | call _ args => loopFreeEach args

def loopFreeEach : List Exp → Bool
  | [] => true
  | e :: es => loopFree e && loopFreeEach es

end

theorem loopFreeEach_iff {es : List Exp} :
    loopFreeEach es = true ↔ ∀ e ∈ es, e.loopFree = true := by
  induction es with
  | nil => simp [loopFreeEach]
  | cons e es ih => simp [loopFreeEach, ih]

end Exp

/-- No function of the table has a loop. -/
def Memory.Straight (m : Memory) : Prop :=
  ∀ name p, m.functions.get? name = some (.procedure p) → p.body.loopFree = true

theorem Memory.Straight.of_functions_eq {m m' : Memory} (h : m.Straight)
    (heq : m'.functions = m.functions) : m'.Straight := by
  intro name p hp
  exact h name p (heq ▸ hp)

/-- An evaluation that ended, with no function that has a loop. -/
abbrev HaltsStraight : Outcome State Number → Prop :=
  Halts (fun s => s.memory.Straight) fun _ => True

variable {m : State}

theorem Primitive.finished_run (p : Primitive) (args : List Number) (out : Channel) :
    (p.run args out).finished = true := by
  unfold run
  -- four operations, three comparisons, three that print, and the wrong number of arguments
  split
  · simp
  · simp
  · simp
  · simp
  · rfl
  · rfl
  · rfl
  · simp
  · simp
  · simp
  · rfl

theorem halts_applyFunction {body : Exp → State → Outcome State Number}
    (hbody : ∀ e m, e.loopFree = true → m.memory.Straight → HaltsStraight (body e m))
    (call : Exp) {f : Function} (hf : ∀ p, f = .procedure p → p.body.loopFree = true)
    (args : List Number) (hm : m.memory.Straight) :
    HaltsStraight (applyFunction body call f args m) := by
  cases f with
  | procedure p =>
    simp only [applyFunction]
    split
    · exact Halts.mapState (hbody p.body _ (hf p rfl) hm) fun _ hs => hs
    · exact .fault hm
  | primitive p =>
    have hfinished := p.finished_run args m.console.out
    simp only [applyFunction, applyPrimitive]
    cases h : p.run args m.console.out with
    | value n out => exact .value hm trivial
    | fault e out => exact .fault hm
    | unfinished out =>
      rw [h] at hfinished
      cases hfinished

/-- One level of evaluation, from the levels below. -/
theorem halts_eval_succ (l : Limits) {left : Nat}
    (ih : ∀ e m, e.loopFree = true → m.memory.Straight → HaltsStraight (eval l left e m))
    {e : Exp} (he : e.loopFree = true) (hm : m.memory.Straight) :
    HaltsStraight (eval l (left + 1) e m) := by
  cases e with
  | literal n => exact .value hm trivial
  | var x =>
    simp only [eval]
    split
    · exact .value hm trivial
    · exact .fault hm
  | set x e =>
    refine (ih e m he hm).andThen fun n s hs _ => ?_
    split
    · next h => exact .value (hs.of_functions_eq (Memory.functions_assign? h)) trivial
    · exact .fault hs
  | cond test yes no =>
    obtain ⟨⟨htest, hyes⟩, hno⟩ : (test.loopFree = true ∧ yes.loopFree = true)
        ∧ no.loopFree = true := by simpa [Exp.loopFree] using he
    refine (ih test m htest hm).andThen fun n s hs _ => ?_
    split
    · exact ih yes s hyes hs
    · exact ih no s hno hs
  | loop test body => cases he
  | block parts =>
    exact .evalLast hm trivial fun e hmem s hs => ih e s (Exp.loopFreeEach_iff.1 he e hmem) hs
  | call function args =>
    simp only [eval]
    split
    · exact .fault hm
    · next f hf =>
      have hargs : ∀ e ∈ args, ∀ s : State, s.memory.Straight → HaltsStraight (eval l left e s) :=
        fun e hmem s hs => ih e s (Exp.loopFreeEach_iff.1 he e hmem) hs
      refine (Halts.evalEach (S := fun s : State => s.memory.Straight) hm hargs).andThen ?_
      intro ns s hs _
      refine Trace.halts_around hs (fun n t ht => ?_) fun t ht => ?_
      · exact Memory.Straight.of_functions_eq ht (functions_setTraceCount n t.memory)
      exact halts_applyFunction ih _ (fun p hp => hm function p (by rw [hf, hp])) ns ht

/-- An evaluation that comes upon no loop ends. -/
theorem halts_eval (l : Limits) (left : Nat) {e : Exp} (he : e.loopFree = true)
    (hm : m.memory.Straight) : HaltsStraight (eval l left e m) := by
  induction left generalizing e m with
  | zero => exact .fault hm
  | succ left ih => exact halts_eval_succ l (fun e m he hm => ih he hm) he hm

/-- An expression without loops, with a function table in which no function has one. -/
structure LoopFree (e : Exp) (m : State) : Prop where
  exp : e.loopFree = true
  functions : m.memory.Straight

theorem LoopFree.finished {e : Exp} (h : LoopFree e m) (l : Limits) (left : Nat) :
    (eval l left e m).finished = true :=
  (halts_eval l left h.exp h.functions).finished

end Procedural

/-! ### Without a bound on turns -/

/-- A computation comes to one end, whatever the bound on the turns of its loops. -/
def AlwaysEnds {σ α : Type} (run : Nat → Outcome σ α) : Prop :=
  ∃ o, o.finished = true ∧ ∀ turns, run turns = o

/-- A computation that ends without taking a single turn of a loop. -/
theorem alwaysEnds_of_finished {μ α : Type} {run : Nat → Outcome (Machine μ) α} (hrun : Stable run)
    (h : (run 0).finished = true) : AlwaysEnds run :=
  ⟨run 0, h, fun turns => hrun 0 turns (Nat.zero_le turns) h⟩

/-- **Without loops every evaluation ends.**  Under any depth limit and from any state,
an expression without loops comes to a value or an error, if no function that can be
called in it has a loop: no closure that can be reached from its environment, or no
function of the table. -/
theorem loopFree_evaluation_ends (depth start : Nat) :
    (∀ (e : Functional.Exp) (env : Functional.Env) (m : Functional.State),
      Functional.LoopFree e env m → AlwaysEnds (Functional.evalFrom depth start e env m)) ∧
    (∀ (e : Procedural.Exp) (m : Procedural.State), Procedural.LoopFree e m →
      AlwaysEnds (Procedural.evalFrom depth start e m)) := by
  refine ⟨fun e env m h => ?_, fun e m h => ?_⟩
  · exact alwaysEnds_of_finished (Functional.stable_evalFrom depth start e env m)
      (h.finished ⟨depth, 0⟩ _)
  · exact alwaysEnds_of_finished (Procedural.stable_evalFrom depth start e m)
      (h.finished ⟨depth, 0⟩ _)

/-- A function that calls itself for ever has no loop, so its calls end. -/
theorem loopFree_evaluation_ends_recursion :
    let f : Functional.Lambda := ⟨0, ["n"], .apply (.var "f") [.var "n"]⟩
    let m : Functional.State := ⟨⟨⟨#[[("f", .closure f .globals)]]⟩, 1⟩, .empty, 0⟩
    let e : Functional.Exp := .apply (.var "f") [.literal (.bool true)]
    let p : Procedural.Procedure := ⟨["n"], [], .call "f" [.var "n"]⟩
    let m' : Procedural.State := ⟨⟨.none, [], [("f", .procedure p)]⟩, .empty, 0⟩
    let e' : Procedural.Exp := .call "f" [.literal .zero]
    (Functional.LoopFree e .globals m ∧ AlwaysEnds (Functional.evalFrom 10000 0 e .globals m)) ∧
      Procedural.LoopFree e' m' ∧ AlwaysEnds (Procedural.evalFrom 10000 0 e' m') := by
  intro f m e p m' e'
  have h : Functional.LoopFree e .globals m := by
    refine ⟨rfl, fun id _ b hb c hc => ?_⟩
    cases id with
    | zero =>
      obtain rfl := List.mem_singleton.1 hb
      obtain rfl := List.mem_singleton.1 hc
      rfl
    | succ id => cases hb
  have h' : Procedural.LoopFree e' m' := by
    refine ⟨rfl, fun name q hq => ?_⟩
    obtain ⟨-, hp⟩ := Prod.mk.inj (List.mem_singleton.1 (Bindings.mem_of_get? hq))
    cases hp
    rfl
  exact ⟨⟨h, (loopFree_evaluation_ends 10000 0).1 e .globals m h⟩,
    h', (loopFree_evaluation_ends 10000 0).2 e' m' h'⟩

end Primer
