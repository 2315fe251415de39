/-
Primer/Proofs/Functional/Spending.lean

The functional language spends its trace count.

`calls` are the calls that an evaluation makes: it follows `eval` and takes from it what
each step ends in.

A program that does not get at the trace count leaves it to the trace, and if it is
bound in the global frame only, every call finds it there (`Memory.Counting`).  So an
evaluation spends one of the count for each call (`spends_eval`).
-/
import Primer.Proofs.DepthLimit
import Primer.Proofs.Functional.Closures
import Primer.Proofs.Spending

namespace Primer.Functional

open Outcome

/-! ### The calls of an evaluation -/

/-- The calls in the body of a function value that is applied. -/
def callsInside (calls : Exp → Env → State → Calls) (f : Value) (args : List Value) (m : State) :
    Calls :=
  match f with
  | .closure lambda env =>
      if lambda.formals.length = args.length then
        let (env, m) := m.extend env (lambda.formals.zip args)
        calls lambda.body env m
      else .nil
  | _ => .nil

/-- The calls in the initial values of sequential bindings. -/
def callsBinding (evalIn : Exp → Env → State → Outcome State Value)
    (calls : Exp → Env → State → Calls) : List (String × Exp) → Env → State → Calls
  | [], _, _ => .nil
  | (x, e) :: bs, env, m =>
      calls e env m ++ (evalIn e env m).callsThen fun v m =>
        let (env, m) := m.extend env [(x, v)]
        callsBinding evalIn calls bs env m

/-- The calls that an evaluation makes: every application whose function and arguments
have values. -/
def calls (limits : Limits) : Nat → Exp → Env → State → Calls
  | 0, _, _, _ => .nil
  | left + 1, exp, env, m =>
      match exp with
      | .literal _ => .nil
      | .var _ => .nil
      | .set _ e => calls limits left e env m
      | .cond test yes no =>
          calls limits left test env m ++ (eval limits left test env m).callsThen fun v m =>
            if v.isTrue then calls limits left yes env m else calls limits left no env m
      | .loop test body =>
          callsWhile Value.isTrue (eval limits left test env) (eval limits left body env)
            (calls limits left test env) (calls limits left body env) limits.turns m
      | .block parts =>
          callsEach (fun e m => eval limits left e env m) (fun e m => calls limits left e env m)
            parts m
      | .apply callee args =>
          calls limits left callee env m ++ (eval limits left callee env m).callsThen fun f m =>
            callsEach (fun e m => eval limits left e env m) (fun e m => calls limits left e env m)
                args m ++
              (evalEach (fun e m => eval limits left e env m) args m).callsThen fun vs m =>
                Trace.callsAround (m.traceCount? env) (State.setTraceCount env)
                  (fun _ => Trace.callText callee.text (vs.map Value.text)) Value.text
                  (applyValue (eval limits left) exp callee f vs)
                  (callsInside (calls limits left) f vs) m
      | .lambda .. => .nil
      | .bind .plain bindings body =>
          callsEach (fun b m => eval limits left b.2 env m)
              (fun b m => calls limits left b.2 env m) bindings m ++
            (evalEach (fun b m => eval limits left b.2 env m) bindings m).callsThen fun vs m =>
              let (inner, m) := m.extend env ((bindings.map (·.1)).zip vs)
              calls limits left body inner m
      | .bind .sequential bindings body =>
          callsBinding (eval limits left) (calls limits left) bindings env m ++
            (bindEach (eval limits left) bindings env m).callsThen fun inner m =>
              calls limits left body inner m
      | .bind .recursive bindings body =>
          match nonLambda? bindings with
          | some _ => .nil
          | none =>
              let (inner, m) := m.extend env (bindings.map fun b => (b.1, .unspecified))
              callsEach (fun b m => eval limits left b.2 inner m)
                  (fun b m => calls limits left b.2 inner m) bindings m ++
                (evalEach (fun b m => eval limits left b.2 inner m) bindings m).callsThen
                  fun vs m =>
                    let m := assignAll inner ((bindings.map (·.1)).zip vs) m
                    calls limits left body inner m

/-! ### Where the trace count is -/

variable {P : FrameId → Prop} {n : Number} {env : Env}

/-- An expression that does not mention the trace count, in an environment within `P` that
shows the global frame. -/
structure Blind (P : FrameId → Prop) (e : Exp) (env : Env) : Prop where
  names : Trace.countName ∉ e.names
  globals : 0 ∈ env.frames
  frames : ∀ id ∈ env.frames, P id

/-- All closures in a value are of such expressions, over such environments. -/
abbrev Value.Blind (P : FrameId → Prop) : Value → Prop :=
  Value.AllClosures fun f => Functional.Blind P f.toExp

/-- The trace count is `n`.  It is bound in the global frame only, and no closure in a frame
within `P` mentions it. -/
structure Memory.Counting (P : FrameId → Prop) (n : Number) (m : Memory) : Prop where
  holding : m.store.Holding P fun f => Functional.Blind P f.toExp
  count : (m.store.frame 0).get? Trace.countName = some (.number n)
  alone : ∀ id, id ≠ 0 → (m.store.frame id).has Trace.countName = false

theorem Blind.part {e part : Exp} (h : Blind P e env) (hpart : part ∈ e.parts) :
    Blind P part env :=
  ⟨fun hx => h.names (Exp.names_part hpart hx), h.globals, h.frames⟩

namespace Memory.Counting

variable {m : State} {m' : Memory}

theorem size_pos (hm : m'.Counting P n) : 0 < m'.store.frames.size := by
  rcases Nat.eq_zero_or_pos m'.store.frames.size with hsize | hsize
  · have hcount := hm.count
    rw [Store.frame_of_size_le _ (Nat.le_of_eq hsize)] at hcount
    cases hcount
  · exact hsize

/-- The trace count is found in the global frame. -/
theorem holderIn (hm : m'.Counting P n) {ids : List FrameId} (hids : 0 ∈ ids) :
    m'.store.holderIn Trace.countName ids = some 0 := by
  have hzero : (m'.store.frame 0).has Trace.countName = true := by
    rw [Bindings.has_eq_isSome, hm.count]
    rfl
  induction ids with
  | nil => cases hids
  | cons id ids ih =>
    rw [Store.holderIn]
    by_cases hid : id = 0
    · rw [hid, if_pos hzero]
    · rw [hm.alone id hid]
      exact ih ((List.mem_cons.1 hids).resolve_left (Ne.symm hid))

theorem traceCount? (hm : m.memory.Counting P n) (henv : 0 ∈ env.frames) :
    m.traceCount? env = some n := by
  rw [State.traceCount?, Store.get?, Store.getIn_eq_bind, hm.holderIn henv, Option.bind_some,
    hm.count]

/-- Any other name may be bound to another value. -/
theorem update (hm : m.memory.Counting P n) (id : FrameId) {x : String}
    (hx : x ≠ Trace.countName) {v : Value} (hv : v.Blind P) :
    (m.mapStore fun s => s.update id x v).memory.Counting P n where
  holding := hm.holding.update id x hv
  count := by
    simp only [State.mapStore, Store.frame_update_eq]
    split
    · next h => rw [Bindings.get?_set_ne hx, ← h.1, hm.count]
    · exact hm.count
  alone id' hid' := by
    simp only [State.mapStore, Store.frame_update_eq]
    split
    · next h =>
      rw [Bindings.has_set, ← h.1, hm.alone id' hid']
      simpa using hx
    · exact hm.alone id' hid'

theorem setTraceCount (hm : m.memory.Counting P n) (henv : 0 ∈ env.frames) (k : Number) :
    (State.setTraceCount env k m).memory.Counting P k := by
  rw [State.setTraceCount, Store.holder?, hm.holderIn henv]
  refine ⟨hm.holding.update 0 _ (List.forall_mem_nil _), ?_, fun id hid => ?_⟩
  · simp only [State.mapStore, Store.frame_update_self hm.size_pos, Bindings.get?_set_self]
  · simp only [State.mapStore, Store.frame_update_ne hid]
    exact hm.alone id hid

/-- A new frame that does not bind the trace count. -/
theorem extend (hm : m.memory.Counting P n) (env : Env) {pairs : List (String × Value)}
    (hnames : Trace.countName ∉ pairs.map (·.1)) (hpairs : ∀ b ∈ pairs, b.2.Blind P) :
    (m.extend env pairs).2.memory.Counting P n where
  holding := hm.holding.extend env hpairs
  count := by
    simp only [State.extend, State.mapStore, Store.frame_extend hm.size_pos, hm.count]
  alone id hid := by
    simp only [State.extend, State.mapStore, Store.frame_extend_eq]
    split
    · rw [Bindings.has_ofList]
      simpa using hnames
    · exact hm.alone id hid

theorem extend_zip (hm : m.memory.Counting P n) (env : Env) {names : List String}
    (hnames : Trace.countName ∉ names) {vs : List Value} (hvs : ∀ v ∈ vs, v.Blind P) :
    (m.extend env (names.zip vs)).2.memory.Counting P n := by
  refine hm.extend env (fun hmem => ?_) fun b hb => hvs b.2 (List.of_mem_zip hb).2
  obtain ⟨b, hb, hbx⟩ := List.mem_map.1 hmem
  exact hnames (hbx ▸ (List.of_mem_zip hb).1)

theorem assignAll (hm : m.memory.Counting P n) (env : Env) {pairs : List (String × Value)}
    (hpairs : ∀ b ∈ pairs, b.1 ≠ Trace.countName ∧ b.2.Blind P) :
    (Functional.assignAll env pairs m).memory.Counting P n := by
  induction pairs generalizing m with
  | nil => exact hm
  | cons b pairs ih =>
    obtain ⟨hname, hv⟩ := hpairs b List.mem_cons_self
    refine ih (m := m.mapStore _) ?_ fun b' hb' => hpairs b' (List.mem_cons_of_mem b hb')
    rcases m.memory.store.getD_assign? env b.1 b.2 with h | ⟨id, -, h⟩
    · simp only [State.mapStore, h]
      exact hm
    · simp only [State.mapStore, h]
      exact hm.update id hname hv

/-- A body may be evaluated in the frame that is made for it. -/
theorem blind_body (hm : m.memory.Counting P n) {e body : Exp} {names : List String}
    (he : Functional.Blind P e env) (hbody : (names, body) ∈ e.bodies) :
    Functional.Blind P body (m.inside env) where
  names hx := he.names (Exp.names_body hbody (.inr hx))
  globals := List.mem_cons_of_mem _ he.globals
  frames := hm.holding.inside he.frames

end Memory.Counting

/-! ### Evaluation -/

/-- An evaluation that makes the calls `cs` from the state `m`. -/
abbrev SpendsBlind (P : FrameId → Prop) (n : Number) (cs : Calls) (m : State) :
    Outcome State Value → Prop :=
  SpendsFrom (Memory.Counting P) (Value.Blind P) n cs m

/-- The names of a frame that is made for a body of an expression. -/
theorem Blind.names_body {e body : Exp} {names : List String} (h : Blind P e env)
    (hbody : (names, body) ∈ e.bodies) : Trace.countName ∉ names :=
  fun hx => h.names (Exp.names_body hbody (.inl hx))

variable {m : State}

theorem shows_extend (hm : m.Shows (Memory.Counting P) n) {e body : Exp} {names : List String}
    (he : Blind P e env) (hbody : (names, body) ∈ e.bodies) {vs : List Value}
    (hvs : ∀ v ∈ vs, v.Blind P) :
    (m.extend env (names.zip vs)).2.Shows (Memory.Counting P) n :=
  ⟨hm.memory.extend_zip env (he.names_body hbody) hvs, hm.writable⟩

theorem spends_applyValue {body : Exp → Env → State → Outcome State Value}
    {inBody : Exp → Env → State → Calls}
    (hbody : ∀ e env k m, Blind P e env → m.Shows (Memory.Counting P) k →
      SpendsBlind P k (inBody e env m) m (body e env m))
    (call callee : Exp) {f : Value} {args : List Value} (hf : f.Blind P)
    (hargs : ∀ a ∈ args, a.Blind P) (hm : m.Shows (Memory.Counting P) n) :
    SpendsBlind P n (callsInside inBody f args m) m (applyValue body call callee f args m) := by
  cases f with
  | closure lambda env =>
    have hlambda : Blind P lambda.toExp env := hf (lambda, env) List.mem_cons_self
    have hmem : (lambda.formals, lambda.body) ∈ lambda.toExp.bodies := by
      simp [Lambda.toExp, Exp.bodies]
    simp only [applyValue, callsInside]
    split
    · exact hbody _ _ n _ (hm.memory.blind_body hlambda hmem) (shows_extend hm hlambda hmem hargs)
    · exact .quietFault hm
  | primitive p =>
    have hprinted : ∀ out, (m.withOut out).Shows (Memory.Counting P) n :=
      fun out => ⟨hm.memory, hm.writable⟩
    simp only [applyValue, applyPrimitive, callsInside]
    cases h : p.run args m.console.out with
    | value v out => exact Spends.quiet (hprinted out) (Primitive.allClosures_run h hargs)
    | fault e out => exact Spends.quietFault (hprinted out)
    | unfinished out => exact .unfinished (.nil (hprinted out))
  | _ => exact .quietFault hm

/-- The frames of sequential bindings, one inside the other. -/
theorem spends_bindEach {evalIn : Exp → Env → State → Outcome State Value}
    {inInitial : Exp → Env → State → Calls}
    (heval : ∀ e env k m, Blind P e env → m.Shows (Memory.Counting P) k →
      SpendsBlind P k (inInitial e env m) m (evalIn e env m))
    {bindings : List (String × Exp)} {body : Exp}
    (he : Blind P (.bind .sequential bindings body) env) (hm : m.Shows (Memory.Counting P) n) :
    SpendsFrom (Memory.Counting P) (Blind P body) n (callsBinding evalIn inInitial bindings env m) m
      (bindEach evalIn bindings env m) := by
  induction bindings generalizing env n m with
  | nil => exact .quiet hm (he.part (by simp [Exp.parts]))
  | cons b bs ih =>
    have hmem : ([b.1], Exp.bind .sequential bs body)
        ∈ (Exp.bind .sequential (b :: bs) body).bodies := by simp [Exp.bodies]
    have hfirst : Blind P b.2 env := he.part (by simp [Exp.parts])
    refine (heval b.2 env n m hfirst hm).andThen fun v k s hv hs => ?_
    exact ih (hs.memory.blind_body he hmem)
      (shows_extend hs he hmem (List.forall_mem_singleton.2 hv))

/-- Recursive bindings.  Their frame holds placeholders until the initial values have been
closed in it. -/
theorem spends_recursive (l : Limits) {left : Nat}
    (ih : ∀ e env k m, Blind P e env → m.Shows (Memory.Counting P) k →
      SpendsBlind P k (calls l left e env m) m (eval l left e env m))
    {bindings : List (String × Exp)} {body : Exp}
    (he : Blind P (.bind .recursive bindings body) env) (hm : m.Shows (Memory.Counting P) n) :
    SpendsBlind P n (calls l (left + 1) (.bind .recursive bindings body) env m) m
      (eval l (left + 1) (.bind .recursive bindings body) env m) := by
  have hmem : (bindings.map (·.1), body) ∈ (Exp.bind .recursive bindings body).bodies := by
    simp [Exp.bodies]
  cases hlambda : nonLambda? bindings with
  | some e =>
    simp only [eval, calls, hlambda]
    exact .quietFault hm
  | none =>
    have hframe : (m.extend env (bindings.map fun b => (b.1, .unspecified))).2.Shows
        (Memory.Counting P) n := by
      rw [map_placeholder_eq_zip]
      refine shows_extend hm he hmem fun v hv => ?_
      obtain ⟨b, -, rfl⟩ := List.mem_map.1 hv
      exact List.forall_mem_nil _
    have hinitial : ∀ b ∈ bindings, Blind P b.2 (m.inside env) := by
      intro b hb
      have hmem' : (bindings.map (·.1), b.2) ∈ (Exp.bind .recursive bindings body).bodies := by
        simp only [Exp.bodies, List.mem_cons, List.mem_map]
        exact .inr ⟨b, hb, rfl⟩
      exact hm.memory.blind_body he hmem'
    simp only [eval, calls, hlambda]
    refine (Spends.evalEach hframe fun b hb k s hs => ih b.2 _ k s (hinitial b hb) hs).andThen ?_
    intro vs k s hvs hs
    have hassigned : (assignAll (m.inside env) ((bindings.map (·.1)).zip vs) s).Shows
        (Memory.Counting P) k := by
      refine ⟨hs.memory.assignAll _ fun b hb => ?_, ?_⟩
      · obtain ⟨hx, hv⟩ := List.of_mem_zip hb
        exact ⟨fun h => he.names_body hmem (h ▸ hx), hvs b.2 hv⟩
      · rw [console_assignAll]
        exact hs.writable
    have hspends := ih body _ k _ (hm.memory.blind_body he hmem) hassigned
    rwa [SpendsBlind, SpendsFrom, console_assignAll, indent_assignAll] at hspends

/-- One level of evaluation, from the levels below. -/
theorem spends_eval_succ (l : Limits) {left : Nat}
    (ih : ∀ e env k m, Blind P e env → m.Shows (Memory.Counting P) k →
      SpendsBlind P k (calls l left e env m) m (eval l left e env m))
    {e : Exp} (he : Blind P e env) (hm : m.Shows (Memory.Counting P) n) :
    SpendsBlind P n (calls l (left + 1) e env m) m (eval l (left + 1) e env m) := by
  have hpart : ∀ part ∈ e.parts, ∀ k s, s.Shows (Memory.Counting P) k →
      SpendsBlind P k (calls l left part env s) s (eval l left part env s) :=
    fun part hp k s hs => ih part env k s (he.part hp) hs
  cases e with
  | literal d => exact .quiet hm (Value.allClosures_ofDatum d)
  | var x =>
    simp only [eval, calls]
    split
    · next h => exact .quiet hm (hm.memory.holding.get? he.frames h)
    · exact .quietFault hm
  | set x e =>
    have hx : x ≠ Trace.countName := fun h => he.names (by simp [Exp.names, Exp.collect, h])
    refine (hpart e (by simp [Exp.parts]) n m hm).andQuietly fun v k s hv hs => ?_
    split
    · exact .value (.nil ⟨hs.memory.update _ hx hv, hs.writable⟩) rfl hv
    · exact .quietFault hs
  | cond test yes no =>
    refine (hpart test (by simp [Exp.parts]) n m hm).andThen fun v k s _ hs => ?_
    split
    · exact hpart yes (by simp [Exp.parts]) k s hs
    · exact hpart no (by simp [Exp.parts]) k s hs
  | loop test body =>
    exact .evalWhile (List.forall_mem_nil _) (hpart test (by simp [Exp.parts]))
      (hpart body (by simp [Exp.parts])) l.turns hm
  | block parts => exact .evalLast hm (List.forall_mem_nil _) hpart
  | apply callee args =>
    refine (hpart callee (by simp [Exp.parts]) n m hm).andThen fun f k s hf hs => ?_
    refine (Spends.evalEach hs fun e he => hpart e (by simp [Exp.parts, he])).andThen ?_
    intro vs k s hvs hs
    refine Trace.spends_around hs (hs.memory.traceCount? he.globals) (fun k t ht => ?_)
      (console_setTraceCount env) fun k t ht => spends_applyValue ih _ _ hf hvs ht
    exact Memory.Counting.setTraceCount (ht ▸ hs.memory) he.globals k
  | lambda label formals body => exact .quiet hm (List.forall_mem_singleton.2 he)
  | bind kind bindings body =>
    cases kind with
    | plain =>
      have hmem : (bindings.map (·.1), body) ∈ (Exp.bind .plain bindings body).bodies := by
        simp [Exp.bodies]
      refine (Spends.evalEach hm fun b hb => hpart b.2 (List.mem_map_of_mem hb)).andThen ?_
      intro vs k s hvs hs
      exact ih body _ k _ (hs.memory.blind_body he hmem) (shows_extend hs he hmem hvs)
    | sequential =>
      refine (spends_bindEach ih he hm).andThen fun inner k s hinner hs => ?_
      exact ih body inner k s hinner hs
    | recursive => exact spends_recursive l ih he hm

/-- **An evaluation spends the trace count**, one for each call that it makes. -/
theorem spends_eval (l : Limits) (left : Nat) {e : Exp} (he : Blind P e env)
    (hm : m.Shows (Memory.Counting P) n) :
    SpendsBlind P n (calls l left e env m) m (eval l left e env m) := by
  induction left generalizing e env n m with
  | zero => exact .quietFault hm
  | succ left ih => exact spends_eval_succ l (fun e env k m he hm => ih he hm) he hm

/-! ### Expressions that leave the trace count alone -/

/-- The trace count is `n`, and an expression and the functions that it can call leave it
to the trace: they do not mention it, and find it in the global frame, as no other
frame binds it.  Every environment of an interpreter shows the global frame, since the
chain of parents of each frame ends there. -/
structure Metered (n : Number) (e : Exp) (env : Env) (m : State) : Prop
    extends Oblivious e env m where
  count : m.global? Trace.countName = some (.number n)
  alone : ∀ id, id ≠ 0 → (m.memory.store.frame id).has Trace.countName = false
  globals : 0 ∈ env.frames
  captured : ∀ id, m.memory.store.Reachable env.frames id → ∀ b ∈ m.memory.store.frame id,
    ∀ c ∈ b.2.closures, 0 ∈ c.2.frames

/-- What the global environment shows is what the global frame holds. -/
theorem global?_eq (m : State) (x : String) : m.global? x = (m.memory.store.frame 0).get? x := by
  simp only [State.global?, Store.get?, Env.globals, Env.frames, Store.getIn]
  split
  · next h => exact h.symm
  · next h => exact h.symm

namespace Metered

variable {e : Exp}

theorem blind (h : Metered n e env m) : Blind (Within m env) e env :=
  ⟨h.exp, h.globals, fun _ hid => .inl (.root hid)⟩

theorem counting (h : Metered n e env m) : m.memory.Counting (Within m env) n where
  holding := holding_within fun id hid b hb c hc hwithin =>
    ⟨h.functions id hid b hb c hc, h.captured id hid b hb c hc, hwithin⟩
  count := by
    rw [← global?_eq]
    exact h.count
  alone := h.alone

theorem spent (h : Metered n e env m) (hw : m.console.diag.Open) (l : Limits)
    (left : Nat) :
    (eval l left e env m).state.Spent (Memory.Counting (Within m env)) n (calls l left e env m)
      m.console.diag.text m.indent :=
  (spends_eval l left h.blind ⟨h.counting, hw⟩).spent

end Metered

end Primer.Functional
