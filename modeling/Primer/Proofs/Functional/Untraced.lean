/-
Primer/Proofs/Functional/Untraced.lean

The functional language without its trace.

The trace count is a variable like any other, so a program could read it or
assign to it.  A program that does neither, and can call nothing that does,
cannot tell whether its calls are traced: its evaluation is the evaluation in
the state without any trace (`match_eval_untraced`).

What a program can call are the closures in the frames that it can reach, and
those that it makes itself.  The frames in question are a set `P` that is fixed
for the whole evaluation: those that can be reached from the environment to
begin with, and all that do not exist yet.
-/
import Primer.Functional.Interpreter
import Primer.Proofs.Functional.Names
import Primer.Proofs.Functional.Simulation
import Primer.Proofs.Untraced

namespace Primer.Functional

open Outcome

/-! ### The store without a name -/

namespace Store

variable {x y : String} (s : Store)

/-- The store in which no frame binds a name. -/
def without (x : String) : Store := ⟨s.frames.map (Bindings.without x)⟩

@[simp] theorem size_without (x : String) : (s.without x).frames.size = s.frames.size := by
  simp [without]

theorem frame_without (x : String) (id : FrameId) :
    (s.without x).frame id = (s.frame id).without x := by
  simp only [frame, without, Array.getD_eq_getD_getElem?, Array.getElem?_map]
  cases s.frames[id]? <;> rfl

theorem getIn_without_self (x : String) (ids : List FrameId) :
    (s.without x).getIn x ids = none := by
  induction ids with
  | nil => rfl
  | cons id ids ih => simpa only [getIn, frame_without, Bindings.get?_without_self] using ih

theorem getIn_without_ne (h : y ≠ x) (ids : List FrameId) :
    (s.without x).getIn y ids = s.getIn y ids := by
  induction ids with
  | nil => rfl
  | cons id ids ih => simp only [getIn, frame_without, Bindings.get?_without_ne h, ih]

theorem holderIn_without_ne (h : y ≠ x) (ids : List FrameId) :
    (s.without x).holderIn y ids = s.holderIn y ids := by
  induction ids with
  | nil => rfl
  | cons id ids ih => simp only [holderIn, frame_without, Bindings.has_without_ne h, ih]

theorem without_update_self (id : FrameId) (x : String) (v : Value) :
    (s.update id x v).without x = s.without x := by
  simp only [without, update, Store.mk.injEq]
  refine Array.ext_getElem? fun i => ?_
  rw [Array.getElem?_map, Array.getElem?_map, Array.getElem?_modify]
  split
  · rw [Option.map_map]
    refine congrArg (Option.map · _) (funext fun frame => ?_)
    exact Bindings.without_set_self x v frame
  · rfl

theorem without_update_ne (h : y ≠ x) (id : FrameId) (v : Value) :
    (s.update id y v).without x = (s.without x).update id y v := by
  simp only [without, update, Store.mk.injEq]
  refine Array.ext_getElem? fun i => ?_
  rw [Array.getElem?_map, Array.getElem?_modify, Array.getElem?_modify, Array.getElem?_map]
  split
  · rw [Option.map_map, Option.map_map]
    refine congrArg (Option.map · _) (funext fun frame => ?_)
    exact Bindings.without_set_ne h v frame
  · rfl

theorem without_extend (env : Env) {pairs : List (String × Value)}
    (h : x ∉ pairs.map (·.1)) :
    (s.extend env pairs).2.without x = ((s.without x).extend env pairs).2 := by
  have hframe : (Bindings.ofList pairs).without x = .ofList pairs := by
    refine Bindings.without_eq_self ?_
    rw [Bindings.has_ofList]
    simpa using h
  simp only [without, extend, Array.map_push, hframe]

/-- A value that is found is in one of the frames. -/
theorem getIn_mem {ids : List FrameId} {v : Value} (h : s.getIn x ids = some v) :
    ∃ id ∈ ids, (s.frame id).get? x = some v := by
  rw [getIn_eq_bind, Option.bind_eq_some_iff] at h
  obtain ⟨id, hid, hv⟩ := h
  exact ⟨id, (s.holderIn_mem hid).1, hv⟩

/-- The frames that can be reached from some: those themselves, and those that a
closure in a frame that can be reached has captured. -/
inductive Reachable (s : Store) (roots : List FrameId) : FrameId → Prop
  | root {id : FrameId} : id ∈ roots → Reachable s roots id
  | captured {id id' : FrameId} {b : String × Value} {c : Lambda × Env} :
      Reachable s roots id → b ∈ s.frame id → c ∈ b.2.closures → id' ∈ c.2.frames →
        Reachable s roots id'

end Store

/-! ### Evaluation without the trace -/

/-- The memory without the trace count. -/
def Memory.untraced (m : Memory) : Memory := { m with store := m.store.without Trace.countName }

variable {P : FrameId → Prop} {m m' : State} {env : Env} {e : Exp}

/-- The expression does not mention the trace count, and the environment is the
same on both sides and within `P`. -/
def Unaware (P : FrameId → Prop) (e : Exp) (env env' : Env) : Prop :=
  env = env' ∧ Trace.countName ∉ e.names ∧ ∀ id ∈ env.frames, P id

/-- All frames within `P` hold closures of functions that do not mention the trace
count, over environments within `P`; and so does every frame to come. -/
structure Memory.Sealed (P : FrameId → Prop) (m : Memory) : Prop where
  later : ∀ id, m.store.frames.size ≤ id → P id
  values : ∀ id, P id →
    Bindings.Paired (fun _ => Value.Alike True fun f => Unaware P f.toExp)
      (m.store.frame id) (m.store.frame id)

/-- A state goes with what is left of it without the trace. -/
def untracedCoupling (P : FrameId → Prop) : Coupling OneWorld where
  state _ := Machine.Hides Memory.untraced (Memory.Sealed P)
  scope _ := Unaware P
  hole := True
  grow _ _ := .only

theorem Unaware.value_eq {v v' : Value} (h : (untracedCoupling P).value .only v v') : v = v' :=
  Value.Alike.eq (fun _ _ _ hf => hf.1) h

theorem hides_update (hm : m.Hides Memory.untraced (Memory.Sealed P) m') {x : String}
    (hx : x ≠ Trace.countName) {v v' : Value} (hv : (untracedCoupling P).value .only v v')
    (id : FrameId) :
    Machine.Hides Memory.untraced (Memory.Sealed P) (m.mapStore fun s => s.update id x v)
      (m'.mapStore fun s => s.update id x v') := by
  obtain rfl := Unaware.value_eq hv
  obtain ⟨rfl, hw, hgood⟩ := hm
  refine ⟨?_, hw, ?_, ?_⟩
  · simp only [Machine.untraced, Memory.untraced, State.mapStore, Store.without_update_ne _ hx]
  · simpa [State.mapStore] using hgood.later
  · intro other hother
    simp only [State.mapStore, Store.frame_update_eq]
    split
    · next hid => exact (hgood.values id (hid.1 ▸ hother)).set hv
    · exact hgood.values other hother

theorem hides_extend (hm : m.Hides Memory.untraced (Memory.Sealed P) m') {names : List String}
    (hnames : Trace.countName ∉ names) {vs vs' : List Value}
    (hvs : List.Forall₂ ((untracedCoupling P).value .only) vs vs') (env : Env) :
    Machine.Hides Memory.untraced (Memory.Sealed P) (m.extend env (names.zip vs)).2
      (m'.extend env (names.zip vs')).2 := by
  have heq : vs = vs' := by
    rw [← List.forall₂_eq_eq_eq]
    exact hvs.imp fun _ _ => Unaware.value_eq
  subst heq
  obtain ⟨rfl, hw, hgood⟩ := hm
  have hmap : Trace.countName ∉ (names.zip vs).map (·.1) := by
    intro hmem
    obtain ⟨b, hb, hbx⟩ := List.mem_map.1 hmem
    exact hnames (hbx ▸ (List.of_mem_zip hb).1)
  refine ⟨?_, hw, ?_, ?_⟩
  · simp only [Machine.untraced, Memory.untraced, State.extend, State.mapStore,
      Store.without_extend _ env hmap]
  · intro id hid
    refine hgood.later id (Nat.le_trans ?_ hid)
    simp [State.extend, State.mapStore]
  · intro id hid
    simp only [State.extend, State.mapStore, Store.frame_extend_eq]
    split
    · exact ((Bindings.Paired.zip hvs names).imp fun _ _ _ hv => hv.2).ofList
    · exact hgood.values id hid

theorem hides_traceCount (hm : m.Hides Memory.untraced (Memory.Sealed P) m') (env : Env) :
    m'.traceCount? env = none := by
  have hnone : (m.untraced Memory.untraced).memory.store.get? env Trace.countName = none :=
    Store.getIn_without_self _ _ _
  rw [hm.eq, State.traceCount?, hnone]

theorem untraced_setTraceCount (env : Env) (n : Number) (m : State) :
    (m.setTraceCount env n).console = m.console ∧
      (m.setTraceCount env n).memory.untraced = m.memory.untraced := by
  unfold State.setTraceCount
  split
  · exact ⟨rfl, by simp only [Memory.untraced, State.mapStore, Store.without_update_self]⟩
  · exact ⟨rfl, rfl⟩

/-- Without its trace a program does what it does with it. -/
theorem untracedCoupling_simulates (P : FrameId → Prop) : (untracedCoupling P).Simulates where
  le_grow _ _ := le_rfl
  scope_mono _ h := h
  scope_part h hpart := ⟨h.1, fun hx => h.2.1 (Exp.names_part hpart hx), h.2.2⟩
  scope_body := by
    rintro w e env env' names body m m' hm ⟨rfl, hnames, henv⟩ hbody
    obtain ⟨rfl, -, hgood⟩ := hm
    have hsize : (m.untraced Memory.untraced).memory.store.frames.size
        = m.memory.store.frames.size := Store.size_without _ _
    refine ⟨?_, fun hx => hnames (Exp.names_body hbody (.inr hx)), ?_⟩
    · rw [State.inside, State.inside, hsize]
    · -- the new frame is one of those that did not exist yet
      intro id hid
      rcases List.mem_cons.1 hid with rfl | hid
      · exact hgood.later _ (Nat.le_of_eq hsize)
      · exact henv id hid
  extend := by
    rintro w e env env' names body m m' vs vs' hm ⟨rfl, hnames, -⟩ hbody - hvs
    exact hides_extend hm (fun hx => hnames (Exp.names_body hbody (.inl hx))) hvs env
  placeholders := by
    rintro w env env' bindings body m m' hm ⟨rfl, hnames, -⟩
    have hbody : (bindings.map (·.1), body) ∈ (Exp.bind .recursive bindings body).bodies := by
      simp [Exp.bodies]
    refine ⟨.only, le_rfl, ?_⟩
    rw [map_placeholder_eq_zip]
    refine hides_extend hm (fun hx => hnames (Exp.names_body hbody (.inl hx))) ?_ env
    exact List.forall₂_same.2 fun v hv => by
      obtain ⟨b, -, rfl⟩ := List.mem_map.1 hv
      exact .unspecified trivial
  var := by
    rintro w x env env' m m' hm ⟨rfl, hx, henv⟩
    obtain ⟨rfl, -, hgood⟩ := hm
    have hx' : x ≠ Trace.countName := fun h => hx (by simp [Exp.names, Exp.collect, h])
    have hget : m.memory.store.get? env x
        = (m.untraced Memory.untraced).memory.store.get? env x :=
      (Store.getIn_without_ne _ hx' env.frames).symm
    rw [hget]
    cases hv : (m.untraced Memory.untraced).memory.store.get? env x with
    | none => exact .none
    | some v =>
      -- the value is in a frame within `P`, and there everything is like itself
      obtain ⟨id, hid, hframe⟩ := Store.getIn_mem _ hv
      have hrel := (hgood.values id (henv id hid)).get? x
      rw [hframe] at hrel
      exact hrel
  set := by
    rintro w x e env env' m m' v v' hm ⟨rfl, hx, -⟩ hv
    have hx' : x ≠ Trace.countName := fun h => hx (by simp [Exp.names, Exp.collect, h])
    have hholder : m'.memory.store.holder? env x = m.memory.store.holder? env x := by
      rw [hm.eq]
      exact Store.holderIn_without_ne _ hx' env.frames
    rw [hholder]
    cases m.memory.store.holder? env x with
    | none => exact .none
    | some id => exact .some (hides_update hm hx' hv id)
  out_eq h := by rw [h.eq]; rfl
  withOut h out := by
    obtain ⟨rfl, hw, hgood⟩ := h
    exact ⟨rfl, hw, hgood⟩
  around := by
    rintro w callee args env env' m m' call run run' hm ⟨rfl, -, -⟩ hrun
    rw [hides_traceCount hm env]
    exact Trace.match_around (untraced_setTraceCount env) hm fun s s' => hrun .only le_rfl s s'

/-- An expression that does not mention the trace count, from a state and in an
environment that give it no function to call that does. -/
structure Oblivious (e : Exp) (env : Env) (m : State) : Prop where
  exp : Trace.countName ∉ e.names
  functions : ∀ id, m.memory.store.Reachable env.frames id → ∀ b ∈ m.memory.store.frame id,
    ∀ c ∈ b.2.closures, Trace.countName ∉ c.1.toExp.names

/-- The frames that matter to an evaluation: those it can reach, and those that do not
exist yet. -/
def Within (m : State) (env : Env) (id : FrameId) : Prop :=
  m.memory.store.Reachable env.frames id ∨ m.memory.store.frames.size ≤ id

theorem Oblivious.sealed (h : Oblivious e env m) :
    m.memory.untraced.Sealed (Within m env) where
  later id hid := by
    rw [Memory.untraced, Store.size_without] at hid
    exact .inr hid
  values id hid := by
    refine Bindings.Paired.refl fun b hb => Value.Alike.of_closures trivial _ fun c hc => ?_
    rw [Memory.untraced, Store.frame_without] at hb
    have hb' : b ∈ m.memory.store.frame id := List.mem_of_mem_filter hb
    -- a frame that does not exist yet has no closures
    rcases hid with hid | hid
    · exact ⟨rfl, h.functions id hid b hb' c hc,
        fun id' hid' => .inl (.captured hid hb' hc hid')⟩
    · rw [Store.frame_of_size_le _ hid] at hb'
      cases hb'

/-- The evaluation of an expression that is oblivious of the trace count, which is
`n`, is its evaluation without the trace. -/
theorem match_eval_untraced (h : Oblivious e env m) (hw : m.console.diag.Open)
    (l : Limits) (left : Nat) (n : Number) :
    Match (untracedCoupling (Within m env)).state (untracedCoupling (Within m env)).value .only
      (eval l left e env (m.defineGlobal Trace.countName (.number n)))
      (eval l left e env (m.untraced Memory.untraced)) := by
  refine (untracedCoupling_simulates _).eval l left e ⟨?_, hw, h.sealed⟩
    ⟨rfl, h.exp, fun id hid => .inl (.root hid)⟩
  simp only [Machine.untraced, Memory.untraced, State.defineGlobal, State.mapStore, Store.define,
    Store.without_update_self]

end Primer.Functional
