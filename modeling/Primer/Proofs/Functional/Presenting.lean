/-
Primer/Proofs/Functional/Presenting.lean

Evaluation of the functional language, however its results are presented.

The trace count is looked up like any other variable.  If no frame has it then no call
is traced, and evaluation computes the same whatever is wrong with the diagnostics
(`tracks_eval`); and so do definitions, echoed or not (`tracks_define`).
-/
import Primer.Functional.Interpreter
import Primer.Proofs.Functional.Untraced
import Primer.Proofs.Presenting

namespace Primer.Functional

open Outcome

/-! ### Variables that were ever bound -/

/-- Whether a variable of this name was ever bound.  Frames are only added and nothing in
them is unbound, so a look at all of them tells. -/
def Memory.binds (x : String) (m : Memory) : Bool := m.store.frames.any fun frame => frame.has x

theorem Memory.binds_iff {x : String} {m : Memory} :
    m.binds x = true ↔ ∃ id, (m.store.frame id).has x = true := by
  simp only [binds, Array.any_eq_true, Store.frame]
  constructor
  · rintro ⟨id, hid, hx⟩
    exact ⟨id, by simpa [Array.getD_eq_getD_getElem?, hid] using hx⟩
  · rintro ⟨id, hx⟩
    by_cases hid : id < m.store.frames.size
    · exact ⟨id, hid, by simpa [Array.getD_eq_getD_getElem?, hid] using hx⟩
    · simp [Array.getD_eq_getD_getElem?, hid, Bindings.has] at hx

section

variable {x : String} {m : Memory}

theorem Memory.binds_update (h : m.binds x = true) (id : FrameId) (y : String) (v : Value) :
    Memory.binds x { m with store := m.store.update id y v } = true := by
  obtain ⟨other, hother⟩ := binds_iff.1 h
  refine binds_iff.2 ⟨other, ?_⟩
  rw [Store.frame_update_eq]
  split
  · next hid => rw [Bindings.has_set, ← hid.1, hother, Bool.or_true]
  · exact hother

theorem Memory.binds_extend (h : m.binds x = true) (env : Env) (pairs : List (String × Value)) :
    Memory.binds x { m with store := (m.store.extend env pairs).2 } = true := by
  simp only [binds, Store.extend, Array.any_push, Bool.or_eq_true]
  exact .inl h

/-- A variable that can be seen is bound. -/
theorem Memory.binds_of_get? {env : Env} {v : Value} (h : m.store.get? env x = some v) :
    m.binds x = true := by
  obtain ⟨id, -, hid⟩ := Store.getIn_mem _ h
  refine binds_iff.2 ⟨id, ?_⟩
  rw [Bindings.has_eq_isSome, hid, Option.isSome_some]

end

/-- The two computations agree unless the first binds the trace count. -/
abbrev Tracks {α : Type} (same : Prop) (run run' : State → Outcome State α) : Prop :=
  Machine.Tracks (fun memory => memory.binds Trace.countName = true) (fun _ => True) same run run'

variable {same : Prop}

/-- The store may change in the same way on both sides. -/
theorem presents_mapStore {m m' : State} (h : m.Presents (fun _ => True) same m')
    (f : Store → Store) :
    Machine.Presents (fun _ => True) same (State.mapStore m f) (State.mapStore m' f) :=
  h.mapMemory (f := fun memory => { memory with store := f memory.store }) id

/-! ### Evaluation -/

theorem Primitive.run_presents (p : Primitive) (args : List Value) {out out' : Channel}
    (h : out.Alike same out') :
    Agree (Channel.Alike same) Eq (p.run args out) (p.run args out') := by
  unfold run
  split
  · exact (h.write _).map fun _ _ _ _ _ => rfl
  · exact (h.writeText _).map fun _ _ _ _ _ => rfl
  · exact (h.writeText _).map fun _ _ _ _ _ => rfl
  · refine Match.andThen (V := fun _ => Eq) (.ofExcept (SameResult.refl _) h) ?_
    rintro - - n _ out out' hout rfl
    exact (hout.emitCharacter n).map fun _ _ _ _ _ => rfl
  · exact .ofExcept (SameResult.refl _) h

theorem tracks_applyPrimitive (p : Primitive) (args : List Value) (call : Exp) :
    Tracks same (applyPrimitive p args call) (applyPrimitive p args call) :=
  Machine.tracks_primitive (Primitive.run_presents p args) (Error.inCall call.text)

/-- What is done in a new frame. -/
theorem tracks_extend {α : Type} {body : Env → State → Outcome State α}
    (h : ∀ inner, Tracks same (body inner) (body inner)) (env : Env)
    (pairs : List (String × Value)) :
    Tracks same (fun m => body (State.extend m env pairs).1 (State.extend m env pairs).2)
      fun m => body (State.extend m env pairs).1 (State.extend m env pairs).2 := by
  refine ⟨fun m hm => (h _).keeps _ (Memory.binds_extend hm env pairs), fun {m m'} hm => ?_⟩
  have hinner : (State.extend m' env pairs).1 = (State.extend m env pairs).1 := by
    rw [State.extend, State.extend, hm.memory]
  rw [hinner]
  exact (h _).agree (presents_mapStore hm fun store => (store.extend env pairs).2)

theorem tracks_applyValue {body : Exp → Env → State → Outcome State Value}
    (hbody : ∀ e env, Tracks same (body e env) (body e env)) (call callee : Exp) (f : Value)
    (args : List Value) :
    Tracks same (applyValue body call callee f args) (applyValue body call callee f args) := by
  cases f with
  | closure lambda env =>
    by_cases hlength : lambda.formals.length = args.length
    · have heq : applyValue body call callee (.closure lambda env) args = fun m =>
          body lambda.body (State.extend m env (lambda.formals.zip args)).1
            (State.extend m env (lambda.formals.zip args)).2 :=
        funext fun m => if_pos hlength
      rw [heq]
      exact tracks_extend (fun inner => hbody lambda.body inner) env _
    · have heq : applyValue body call callee (.closure lambda env) args = Outcome.fault _ :=
        funext fun m => if_neg hlength
      rw [heq]
      exact .fault _
  | primitive p => exact tracks_applyPrimitive p args call
  | _ => exact .fault _

theorem tracks_bindEach {evalIn : Exp → Env → State → Outcome State Value}
    (heval : ∀ e env, Tracks same (evalIn e env) (evalIn e env)) (bindings : List (String × Exp))
    (env : Env) : Tracks same (bindEach evalIn bindings env) (bindEach evalIn bindings env) := by
  induction bindings generalizing env with
  | nil => exact .value env
  | cons b bs ih => exact (heval b.2 env).andThen fun v => tracks_extend ih env [(b.1, v)]

theorem tracks_assignAll {α : Type} {run : State → Outcome State α} (h : Tracks same run run)
    (env : Env) (pairs : List (String × Value)) :
    Tracks same (fun m => run (assignAll env pairs m)) fun m => run (assignAll env pairs m) := by
  induction pairs generalizing run with
  | nil => exact h
  | cons p ps ih =>
    refine (ih h).after (f := fun m : State => m.mapStore fun s => (s.assign? env p.1 p.2).getD s)
      (fun m hm => ?_) fun hm => presents_mapStore hm _
    rcases m.memory.store.getD_assign? env p.1 p.2 with h | ⟨id, -, h⟩
    · simp only [State.mapStore, h]
      exact hm
    · simp only [State.mapStore, h]
      exact Memory.binds_update hm id p.1 p.2

theorem binds_setTraceCount (env : Env) (n : Number) (m : State)
    (hm : m.memory.binds Trace.countName = true) :
    (State.setTraceCount env n m).memory.binds Trace.countName = true := by
  unfold State.setTraceCount
  split
  · exact Memory.binds_update hm _ _ _
  · exact hm

/-- A call is traced only if the trace count is bound. -/
theorem traceCount_or_binds (env : Env) {m m' : State}
    (h : m.Presents (fun _ => True) same m') :
    m.memory.binds Trace.countName = true ∨
      (m.traceCount? env = none ∧ m'.traceCount? env = none) := by
  unfold State.traceCount?
  rw [← h.memory]
  cases hcount : m.memory.store.get? env Trace.countName with
  | none => exact .inr ⟨rfl, rfl⟩
  | some v => exact .inl (Memory.binds_of_get? hcount)

/-- Evaluation computes the same however results are presented. -/
theorem tracks_eval (l : Limits) (left : Nat) (e : Exp) (env : Env) :
    Tracks same (eval l left e env) (eval l left e env) := by
  induction left generalizing e env with
  | zero => exact .fault _
  | succ left ih =>
    cases e with
    | literal d => exact .value _
    | var x =>
      refine ⟨fun m hm => ?_, fun {m m'} h => .inr ?_⟩
      · simp only [eval]
        split <;> exact hm
      · simp only [eval, ← h.memory]
        cases m.memory.store.get? env x with
        | some v => exact .value le_rfl h rfl
        | none => exact .fault le_rfl h
    | set x e =>
      refine (ih e env).andThen fun v => ⟨fun m hm => ?_, fun {m m'} h => .inr ?_⟩
      · dsimp only
        split
        · exact Memory.binds_update hm _ x v
        · exact hm
      · rw [← h.memory]
        cases m.memory.store.holder? env x with
        | some id => exact .value le_rfl (presents_mapStore h _) rfl
        | none => exact .fault le_rfl h
    | cond test yes no =>
      refine (ih test env).andThen fun v => ?_
      cases v.isTrue with
      | true => exact ih yes env
      | false => exact ih no env
    | loop test body => exact .evalWhile (ih test env) (ih body env) l.turns
    | block parts => exact .evalLast (fun e => ih e env) _ parts
    | apply callee args =>
      refine (ih callee env).andThen fun f => ?_
      refine (Outcome.Tracks.evalEach (fun e => ih e env) args).andThen fun vs => ?_
      exact Trace.tracks_around (binds_setTraceCount env) (traceCount_or_binds env)
        (tracks_applyValue ih _ callee f vs)
    | lambda label formals body => exact .value _
    | bind kind bindings body =>
      cases kind with
      | plain =>
        refine (Outcome.Tracks.evalEach (fun b => ih b.2 env) bindings).andThen fun vs => ?_
        exact tracks_extend (fun inner => ih body inner) env _
      | sequential =>
        exact (tracks_bindEach ih bindings env).andThen fun inner => ih body inner
      | recursive =>
        cases hlambda : nonLambda? bindings with
        | some e =>
          simp only [eval, hlambda]
          exact .fault _
        | none =>
          -- first the frame with its placeholders, then the closures over it are put in
          simp only [eval, hlambda]
          refine @tracks_extend _ _ (fun inner m =>
            (evalEach (fun b m => eval l left b.2 inner m) bindings m).andThen fun vs m =>
              eval l left body inner (assignAll inner ((bindings.map (·.1)).zip vs) m))
            (fun inner => ?_) env _
          refine (Outcome.Tracks.evalEach (fun b => ih b.2 inner) bindings).andThen fun vs => ?_
          exact tracks_assignAll (ih body inner) inner _

theorem tracks_evalGlobal (l : Limits) (e : Exp) :
    Tracks same (evalGlobal l e) (evalGlobal l e) := by
  have htracks : ∀ e, Tracks same (eval l l.depth e .globals) (eval l l.depth e .globals) :=
    fun e => tracks_eval l l.depth e .globals
  refine ⟨fun m hm => (htracks _).keeps (State.load m e).2 hm, fun {m m'} h => ?_⟩
  -- both load the expression with the same labels
  have hload : (State.load m' e).1 = (State.load m e).1 := by
    rw [State.load, State.load, h.memory]
  have hpresents : (State.load m e).2.Presents (fun _ => True) same (State.load m' e).2 :=
    h.mapMemory (f := fun memory => { memory with nextLabel := (e.labelled memory.nextLabel).2 }) id
  show _ ∨ Agree _ _ _ (eval l l.depth (State.load m' e).1 .globals (State.load m' e).2)
  rw [hload]
  exact (htracks _).agree hpresents

/-! ### Definitions -/

theorem tracks_bindAndEcho {echo echo' : Echo} (hecho : same → echo = echo') (name : String)
    (v : Value) (line : Unit → String) :
    Tracks same (bindAndEcho echo name v line) (bindAndEcho echo' name v line) := by
  have hline : Tracks same (fun m => m.echo echo line) fun m => m.echo echo' line :=
    Machine.tracks_echo hecho line
  refine (hline.map fun _ => v).after (f := fun m => State.defineGlobal m name v)
    (fun m hm => Memory.binds_update hm _ name v) fun h => ?_
  exact presents_mapStore h _

theorem tracks_define {echo echo' : Echo} (hecho : same → echo = echo') (l : Limits)
    (d : Definition Exp Lambda) : Tracks same (define l echo d) (define l echo' d) := by
  cases d with
  | val name e =>
    exact (tracks_evalGlobal l e).andThen fun v => tracks_bindAndEcho hecho name v _
  | function name f =>
    have hbind : ∀ f : Lambda,
        Tracks same (bindAndEcho echo name (.closure f .globals) fun _ => name)
          (bindAndEcho echo' name (.closure f .globals) fun _ => name) :=
      fun f => tracks_bindAndEcho hecho name _ _
    cases hrepeated : repeated? f.formals with
    | some formal =>
      have heq : ∀ echo, define l echo (.function name f)
          = Outcome.fault (.repeatedFormal formal name) := by
        intro echo
        funext m
        simp only [define, hrepeated]
      rw [heq, heq]
      exact .fault _
    | none =>
      have heq : ∀ echo, define l echo (.function name f) = fun m =>
          bindAndEcho echo name (.closure (State.loadLambda m f).1 .globals) (fun _ => name)
            (State.loadLambda m f).2 := by
        intro echo
        funext m
        simp only [define, hrepeated]
      rw [heq, heq]
      refine ⟨fun m hm => (hbind _).keeps (State.loadLambda m f).2 hm, fun {m m'} h => ?_⟩
      have hload : (State.loadLambda m' f).1 = (State.loadLambda m f).1 := by
        rw [State.loadLambda, State.loadLambda, h.memory]
      rw [hload]
      exact (hbind _).agree (h.mapMemory
        (f := fun memory => { memory with nextLabel := (f.labelled memory.nextLabel).2 }) id)
  | exp e =>
    exact (tracks_evalGlobal l e).andThen fun v => tracks_bindAndEcho hecho itName v _

end Primer.Functional
