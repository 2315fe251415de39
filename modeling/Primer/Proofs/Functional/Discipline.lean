/-
Primer/Proofs/Functional/Discipline.lean

What holds at every moment of an evaluation.

A `Discipline` says in which environments an expression may be evaluated, which
frames are live, and what the store looks like; values and the contents of live
frames are then good if their closures may be evaluated where they are.
`Discipline.Kept` lists what a discipline has to satisfy.  From this every
evaluation with a journal (`watch`) keeps it, together with the evaluation
without one: both come to the same end, the store holds good values in all live
frames, and the journal shows nothing that is not allowed (`Kept.watch`).

The one moment at which a store may hold placeholders in a frame that is going
to be live is between the making of the frame of recursive bindings and its
filling.  All that happens in between is that lambda expressions are closed; no
name is looked up.  A frame that is given up at that moment, for want of a level
of depth, is never live if placeholders do not count as values (`abandon`).
-/
import Primer.Proofs.Functional.Journal
import Primer.Proofs.Functional.Untraced

namespace Primer.Functional

open Outcome

/-- What an evaluation has to keep to. -/
structure Discipline (W : Type) where
  /-- the environments in which an expression may be evaluated -/
  scope : W → Exp → Env → Prop
  /-- the frames that a program may get at -/
  live : W → FrameId → Prop
  shape : W → Store → Prop
  /-- whether the placeholder counts as a value -/
  hole : Prop
  /-- the world after a new frame with these names inside an environment -/
  grow : W → Env → List String → W
  /-- the frames before this one are older than the journal -/
  first : FrameId

namespace Discipline

variable {W : Type} (D : Discipline W)

/-- A value whose closures are in environments in which they may be called. -/
def Good (w : W) (v : Value) : Prop :=
  Value.Alike D.hole (fun f env env' => env = env' ∧ D.scope w f.toExp env) v v

/-- A store of the right shape with good values in its live frames. -/
structure Holds (w : W) (s : Store) : Prop where
  shape : D.shape w s
  values : ∀ id, D.live w id → ∀ b ∈ s.frame id, D.Good w b.2

/-- A frame with these names and values, made for a body of some expression. -/
structure Makes (w : W) (inner : Env) (names : List String) (vs : List Value) (s : Store) :
    Prop where
  origin : ∃ e env body, D.scope w e env ∧ (names, body) ∈ e.bodies
  length : vs.length = names.length
  frame : s.frame inner.inner = .ofList (names.zip vs)

/-- What an event may show. -/
def Allows (w : W) : Event → Prop
  | .began e env s => e.isLambda = true ∨ D.scope w e env ∧ D.Holds w s
  | .ended _ v => D.Good w v
  | .read _ _ v => D.Good w v
  | .assigned _ _ v => D.Good w v
  | .applied _ f args => D.Good w f ∧ ∀ v ∈ args, D.Good w v
  | .bound inner names vs s => D.Makes w inner names vs s ∧ ∀ v ∈ vs, D.Good w v
  | .reserved inner names s => D.Makes w inner names (names.map fun _ => .unspecified) s
  | .filled inner names vs s =>
      D.Makes w inner names vs s ∧ ∀ v ∈ vs, D.Good w v ∧ ∃ f, v = .closure f inner
  | .defined _ v => D.Good w v

/-- A journal that shows only what is allowed, and accounts for a store. -/
structure Sound (journal : List Event) (s : Store) : Prop where
  allowed : ∀ event ∈ journal, ∃ w, D.Allows w event
  recorded : Recorded D.first journal s

/-- A state with a journal beside the same state without one. -/
structure Watches (w : W) (r : Watched) (m : State) : Prop where
  plain : r.plain = m
  holds : D.Holds w m.memory.store
  sound : D.Sound r.journal m.memory.store

variable [Preorder W]

/-- What makes evaluations keep to a discipline. -/
structure Kept : Prop where
  le_grow : ∀ w env names, w ≤ D.grow w env names
  scope_mono : ∀ {w w' e env}, w ≤ w' → D.scope w e env → D.scope w' e env
  scope_part : ∀ {w e env part}, D.scope w e env → part ∈ e.parts → D.scope w part env
  scope_body : ∀ {w s e env names body}, D.shape w s → D.scope w e env → (names, body) ∈ e.bodies →
    D.scope (D.grow w env names) body ⟨s.frames.size, env.frames⟩
  scope_live : ∀ {w e env}, D.scope w e env → ∀ id ∈ env.frames, D.live w id
  live_grow : ∀ {w s env names id}, D.shape w s → D.live (D.grow w env names) id →
    id = s.frames.size ∨ D.live w id
  shape_extend : ∀ {w s e env names vs}, D.shape w s → D.scope w e env →
    D.shape (D.grow w env names) (s.extend env (names.zip vs)).2
  shape_update : ∀ {w s id x} v, D.shape w s → (s.frame id).has x = true →
    D.shape w (s.update id x v)
  /-- frames of recursive bindings that are given up before they have values -/
  abandon : ∀ {w s e env} (names : List String) (vs : List Value), D.shape w s → D.scope w e env →
    ∃ w', w ≤ w' ∧ D.shape w' (s.extend env (names.zip vs)).2 ∧
      ∀ id, D.live w' id → (id = s.frames.size ∧ D.hole) ∨ (id ≠ s.frames.size ∧ D.live w id)

end Discipline

namespace Discipline

variable {W : Type} {D : Discipline W} {w w' : W} {s : Store} {e : Exp} {env : Env}
  {x : String} {v : Value} {vs : List Value} {names : List String}

theorem Sound.note {journal : List Event} (h : D.Sound journal s) {event : Event}
    (hquiet : event.quiet = true) (hallows : D.Allows w event) : D.Sound (event :: journal) s where
  allowed := List.forall_mem_cons.2 ⟨⟨w, hallows⟩, h.allowed⟩
  recorded := h.recorded.note hquiet

/-- The same value on both sides, a good one. -/
def Same (D : Discipline W) (w : W) (v v' : Value) : Prop := v = v' ∧ D.Good w v

theorem Watches.note {r : Watched} {m : State} (h : D.Watches w r m) {event : Event}
    (hquiet : event.quiet = true) (hallows : D.Allows w event) : D.Watches w (r.note event) m :=
  ⟨h.plain, h.holds, h.sound.note hquiet hallows⟩

/-- A state with nothing in its journal. -/
theorem Watches.journaled {m : State} (hglobals : 0 < m.memory.store.frames.size)
    (hfirst : m.memory.store.frames.size = D.first) (h : D.Holds w m.memory.store) :
    D.Watches w m.journaled m where
  plain := rfl
  holds := h
  sound :=
    { allowed := fun _ hevent => nomatch hevent
      recorded :=
        { globals := hglobals
          made := fun _ hle hlt => absurd hlt (Nat.not_lt_of_le (hfirst ▸ hle))
          reserved := fun _ _ _ hmem => nomatch hmem
          held := fun _ _ _ _ => trivial
          faithful := trivial } }

/-- The discipline does not depend on the console and the indentation. -/
theorem Watches.of_store_eq {r r' : Watched} {m m' : State} (h : D.Watches w r m)
    (hplain : r'.plain = m') (hjournal : r'.journal = r.journal)
    (hstore : m'.memory.store = m.memory.store) : D.Watches w r' m' := by
  refine ⟨hplain, ?_, ?_⟩
  · rw [hstore]
    exact h.holds
  · rw [hstore, hjournal]
    exact h.sound

theorem Watches.sameOnBoth : Trace.SameOnBoth D.Watches where
  console h := congrArg Machine.console h.plain
  indent h := congrArg Machine.indent h.plain
  withDiag h diag indent := by
    refine h.of_store_eq ?_ rfl rfl
    rw [← h.plain]
    rfl

theorem Good.closure {f : Lambda} (h : D.scope w f.toExp env) : D.Good w (.closure f env) :=
  Value.Alike.closure ⟨rfl, h⟩

/-- The closures in a good value may be called. -/
theorem Good.scope (h : D.Good w v) : ∀ c ∈ v.closures, D.scope w c.1.toExp c.2 := by
  intro c hc
  obtain ⟨env', -, hscope⟩ := Value.Alike.exists_of_mem_closures h hc
  exact hscope

/-- Where values go together that are the same and good, the lists are the same. -/
theorem eq_and_good {vs vs' : List Value}
    (h : List.Forall₂ (D.Same w) vs vs') :
    vs = vs' ∧ ∀ v ∈ vs, D.Good w v := by
  induction h with
  | nil => exact ⟨rfl, fun v hv => nomatch hv⟩
  | cons hv _ ih =>
    obtain ⟨rfl, hgood⟩ := hv
    exact ⟨congrArg _ ih.1, List.forall_mem_cons.2 ⟨hgood, ih.2⟩⟩

namespace Kept

variable [Preorder W]

theorem good_mono (hD : D.Kept) (hw : w ≤ w') (h : D.Good w v) : D.Good w' v :=
  h.imp fun _ _ _ hf => ⟨hf.1, hD.scope_mono hw hf.2⟩

/-! ### Stores -/

/-- What is looked up is found in a frame, and is good. -/
theorem lookup (hD : D.Kept) (hs : D.Holds w s) (hscope : D.scope w e env)
    (hv : s.get? env x = some v) :
    ∃ id, s.holder? env x = some id ∧ (s.frame id).get? x = some v ∧ D.Good w v := by
  rw [Store.get?, Store.getIn_eq_bind, Option.bind_eq_some_iff] at hv
  obtain ⟨id, hid, hframe⟩ := hv
  have hlive : D.live w id := hD.scope_live hscope id (s.holderIn_mem hid).1
  exact ⟨id, hid, hframe, hs.values id hlive (x, v) (Bindings.mem_of_get? hframe)⟩

theorem holds_update (hD : D.Kept) (hs : D.Holds w s) {id : FrameId}
    (hx : (s.frame id).has x = true) (hv : D.Good w v) : D.Holds w (s.update id x v) where
  shape := hD.shape_update v hs.shape hx
  values other hother b hb := by
    rw [Store.frame_update_eq] at hb
    split at hb
    · next hid =>
      rcases Bindings.mem_set hb with hb | rfl
      · exact hs.values id (hid.1 ▸ hother) b hb
      · exact hv
    · exact hs.values other hother b hb

theorem holds_extend (hD : D.Kept) (hs : D.Holds w s) (hscope : D.scope w e env)
    (names : List String) (hvs : ∀ v ∈ vs, D.Good (D.grow w env names) v) :
    D.Holds (D.grow w env names) (s.extend env (names.zip vs)).2 where
  shape := hD.shape_extend hs.shape hscope
  values id hid b hb := by
    rw [Store.frame_extend_eq] at hb
    split at hb
    · exact hvs b.2 (List.of_mem_zip (Bindings.mem_of_mem_ofList hb)).2
    · next hne =>
      have hlive : D.live w id := (hD.live_grow hs.shape hid).resolve_left hne
      exact hD.good_mono (hD.le_grow w env names) (hs.values id hlive b hb)

/-- A frame of placeholders that is given up. -/
theorem holds_abandon (hD : D.Kept) (hs : D.Holds w s) (hscope : D.scope w e env)
    (names : List String) :
    ∃ w', w ≤ w' ∧ D.Holds w' (s.extend env (names.zip (names.map fun _ => .unspecified))).2 := by
  obtain ⟨w', hw, hshape, hlive⟩ :=
    hD.abandon names (names.map fun _ => .unspecified) hs.shape hscope
  refine ⟨w', hw, hshape, fun id hid b hb => ?_⟩
  rw [Store.frame_extend_eq] at hb
  rcases hlive id hid with ⟨hnew, hhole⟩ | ⟨hold, hlive⟩
  · rw [if_pos hnew] at hb
    obtain ⟨y, -, hy⟩ := List.mem_map.1 (List.of_mem_zip (Bindings.mem_of_mem_ofList hb)).2
    rw [← hy]
    exact .unspecified hhole
  · rw [if_neg hold] at hb
    exact hD.good_mono hw (hs.values id hlive b hb)

/-! ### States -/

variable {r : Watched} {m : State}

theorem assign (hD : D.Kept) (hm : D.Watches w r m) {id : FrameId}
    (hx : (m.memory.store.frame id).has x = true) (hv : D.Good w v) :
    D.Watches w (r.assign id x v) (m.mapStore fun s => s.update id x v) := by
  obtain ⟨rfl, hholds, hsound⟩ := hm
  refine ⟨rfl, hD.holds_update hholds hx hv, ?_, hsound.recorded.assign id x v⟩
  exact List.forall_mem_cons.2 ⟨⟨w, hv⟩, hsound.allowed⟩

/-- A new frame, for a body of an expression. -/
theorem bindIn (hD : D.Kept) (hm : D.Watches w r m) (hscope : D.scope w e env) {body : Exp}
    (hbody : (names, body) ∈ e.bodies) (hlen : vs.length = names.length)
    (hvs : ∀ v ∈ vs, D.Good w v) :
    D.Watches (D.grow w env names) (r.bindIn env names vs).2 (m.extend env (names.zip vs)).2 := by
  obtain ⟨rfl, hholds, hsound⟩ := hm
  have hvs' : ∀ v ∈ vs, D.Good (D.grow w env names) v :=
    fun v hv => hD.good_mono (hD.le_grow w env names) (hvs v hv)
  have hframe := Store.frame_extend_size r.plain.memory.store env (names.zip vs)
  refine ⟨rfl, hD.holds_extend hholds hscope names hvs', ?_, ?_⟩
  · have hmakes : D.Makes w (State.inside r.plain env) names vs
        (r.plain.memory.store.extend env (names.zip vs)).2 :=
      ⟨⟨e, env, body, hscope, hbody⟩, hlen, hframe⟩
    exact List.forall_mem_cons.2 ⟨⟨w, hmakes, hvs⟩, hsound.allowed⟩
  · exact hsound.recorded.bind env names vs

theorem setTraceCount (hD : D.Kept) (hm : D.Watches w r m) (env : Env) (n : Number) :
    D.Watches w (r.setTraceCount env n) (m.setTraceCount env n) := by
  have hstore : r.store = m.memory.store := congrArg (·.memory.store) hm.plain
  rw [Watched.setTraceCount, State.setTraceCount, hstore]
  cases hid : m.memory.store.holder? env Trace.countName with
  | none => exact hm
  | some id => exact hD.assign hm (m.memory.store.holderIn_mem hid).2 (.number n)

/-! ### Recursive bindings -/

end Kept

end Discipline

theorem watch_lambda {e : Exp} (he : e.isLambda = true) (l : Limits) (left : Nat) (env : Env)
    (r : Watched) :
    watch l (left + 1) e env r
      = .value (e.closeIn env)
          ((r.note (.began e env r.store)).note (.ended e (e.closeIn env))) := by
  cases e with
  | lambda label formals body => rfl
  | _ => cases he

/-- What is noted when the initial values of recursive bindings are closed. -/
def noteLambdas (inner : Env) : List (String × Exp) → Watched → Watched
  | [], r => r
  | b :: bs, r =>
      noteLambdas inner bs
        ((r.note (.began b.2 inner r.store)).note (.ended b.2 (b.2.closeIn inner)))

theorem watchEach_lambdas {bindings : List (String × Exp)}
    (h : ∀ b ∈ bindings, b.2.isLambda = true) (l : Limits) (left : Nat) (env : Env) (r : Watched) :
    evalEach (fun b r => watch l (left + 1) b.2 env r) bindings r
      = .value (bindings.map fun b => b.2.closeIn env) (noteLambdas env bindings r) := by
  induction bindings generalizing r with
  | nil => rfl
  | cons b bs ih =>
    have hb : b.2.isLambda = true := h b List.mem_cons_self
    have htail := ih fun b' hb' => h b' (List.mem_cons_of_mem b hb')
    simp only [evalEach, watch_lambda hb, andThen_value, htail, List.map_cons, noteLambdas]

theorem plain_noteLambdas (inner : Env) (bindings : List (String × Exp)) (r : Watched) :
    (noteLambdas inner bindings r).plain = r.plain := by
  induction bindings generalizing r with
  | nil => rfl
  | cons b bs ih => rw [noteLambdas, ih, Machine.plain_note, Machine.plain_note]

namespace Discipline

variable {W : Type} {D : Discipline W} {w w' : W} {s : Store} {e : Exp} {env : Env}

/-- The journal after the frame of recursive bindings has been made. -/
theorem Watches.sound_reserve {r : Watched} {m : State} {bindings : List (String × Exp)}
    {body : Exp} (h : D.Watches w r m)
    (hscope : D.scope w (.bind .recursive bindings body) env) :
    D.Sound (r.reserve env (bindings.map (·.1))).2.journal
      (m.memory.store.extend env ((bindings.map (·.1)).zip
        ((bindings.map (·.1)).map fun _ => .unspecified))).2 := by
  obtain ⟨rfl, -, hsound⟩ := h
  have hmem : (bindings.map (·.1), body) ∈ (Exp.bind .recursive bindings body).bodies := by
    simp [Exp.bodies]
  have hframe := Store.frame_extend_size r.plain.memory.store env
    ((bindings.map (·.1)).zip ((bindings.map (·.1)).map fun _ => .unspecified))
  refine ⟨List.forall_mem_cons.2 ⟨⟨w, ?_⟩, hsound.allowed⟩, hsound.recorded.reserve env _⟩
  exact ⟨⟨_, env, body, hscope, hmem⟩, by simp, hframe⟩

/-- To close lambda expressions shows nothing but the closures. -/
theorem Sound.noteLambdas {inner : Env} {bindings : List (String × Exp)} {r : Watched}
    (h : D.Sound r.journal s) (hlambda : ∀ b ∈ bindings, b.2.isLambda = true)
    (hgood : ∀ b ∈ bindings, D.Good w (b.2.closeIn inner)) :
    D.Sound (noteLambdas inner bindings r).journal s := by
  induction bindings generalizing r with
  | nil => exact h
  | cons b bs ih =>
    have hbegan : D.Allows w (.began b.2 inner r.store) := .inl (hlambda b List.mem_cons_self)
    have hended : D.Allows w (.ended b.2 (b.2.closeIn inner)) := hgood b List.mem_cons_self
    refine ih (r := (r.note _).note _) ?_ (fun b' hb' => hlambda b' (List.mem_cons_of_mem b hb'))
      fun b' hb' => hgood b' (List.mem_cons_of_mem b hb')
    exact (h.note rfl hbegan).note rfl hended

namespace Kept

variable [Preorder W] {r : Watched} {m : State} {bindings : List (String × Exp)} {body : Exp}

/-- The closures of recursive bindings, over their own frame. -/
theorem good_closeIn (hD : D.Kept) (hshape : D.shape w s)
    (hscope : D.scope w (.bind .recursive bindings body) env)
    (hlambda : ∀ b ∈ bindings, b.2.isLambda = true) {b : String × Exp} (hb : b ∈ bindings) :
    D.Good (D.grow w env (bindings.map (·.1))) (b.2.closeIn ⟨s.frames.size, env.frames⟩) ∧
      ∃ f, b.2.closeIn ⟨s.frames.size, env.frames⟩ = .closure f ⟨s.frames.size, env.frames⟩ := by
  have hmem : (bindings.map (·.1), b.2) ∈ (Exp.bind .recursive bindings body).bodies := by
    simp only [Exp.bodies, List.mem_cons, List.mem_map]
    exact .inr ⟨b, hb, rfl⟩
  have hbody := hD.scope_body hshape hscope hmem
  have hb' := hlambda b hb
  revert hbody hb'
  cases b.2 with
  | lambda label formals body => exact fun hbody _ => ⟨.closure hbody, _, rfl⟩
  | _ =>
    intro _ hb'
    cases hb'

/-- Recursive bindings for which there is no level left. -/
theorem reserve (hD : D.Kept) (hm : D.Watches w r m)
    (hscope : D.scope w (.bind .recursive bindings body) env) :
    ∃ w', w ≤ w' ∧ D.Watches w' (r.reserve env (bindings.map (·.1))).2
      (m.extend env (bindings.map fun b => (b.1, .unspecified))).2 := by
  obtain ⟨w', hw, hholds⟩ := hD.holds_abandon hm.holds hscope (bindings.map (·.1))
  have hsound := hm.sound_reserve hscope
  have hpairs : (bindings.map (·.1)).zip ((bindings.map (·.1)).map fun _ => Value.unspecified)
      = bindings.map fun b => (b.1, .unspecified) := by
    rw [map_placeholder_eq_zip, List.map_map]
    rfl
  rw [← hpairs]
  obtain ⟨rfl, -, -⟩ := hm
  exact ⟨w', hw, rfl, hholds, hsound⟩

/-- Recursive bindings whose frame is made, whose initial values are closed and whose
frame is filled. -/
theorem fill (hD : D.Kept) (hm : D.Watches w r m)
    (hscope : D.scope w (.bind .recursive bindings body) env)
    (hlambda : ∀ b ∈ bindings, b.2.isLambda = true) :
    D.Watches (D.grow w env (bindings.map (·.1)))
      ((noteLambdas (m.inside env) bindings (r.reserve env (bindings.map (·.1))).2).fill
        (m.inside env) (bindings.map (·.1)) (bindings.map fun b => b.2.closeIn (m.inside env)))
      (m.extend env ((bindings.map (·.1)).zip
        (bindings.map fun b => b.2.closeIn (m.inside env)))).2 := by
  have hclosures : ∀ b ∈ bindings, _ := fun b hb =>
    hD.good_closeIn hm.holds.shape hscope hlambda hb
  have hvalues : ∀ v ∈ bindings.map fun b => b.2.closeIn (m.inside env),
      D.Good (D.grow w env (bindings.map (·.1))) v ∧ ∃ f, v = .closure f (m.inside env) := by
    intro v hv
    obtain ⟨b, hb, rfl⟩ := List.mem_map.1 hv
    exact hclosures b hb
  have hsound := (hm.sound_reserve hscope).noteLambdas hlambda fun b hb => (hclosures b hb).1
  have hmem : (bindings.map (·.1), body) ∈ (Exp.bind .recursive bindings body).bodies := by
    simp [Exp.bodies]
  -- filling the frame leads to the frame that has the values from the start
  have hplain : assignAll (m.inside env)
      ((bindings.map (·.1)).zip (bindings.map fun b => b.2.closeIn (m.inside env)))
      (noteLambdas (m.inside env) bindings (r.reserve env (bindings.map (·.1))).2).plain
      = (m.extend env ((bindings.map (·.1)).zip
          (bindings.map fun b => b.2.closeIn (m.inside env)))).2 := by
    have hnames : ((bindings.map (·.1)).zip
          ((bindings.map (·.1)).map fun _ => Value.unspecified)).map (·.1)
        = ((bindings.map (·.1)).zip
            (bindings.map fun b => b.2.closeIn (m.inside env))).map (·.1) := by
      rw [List.map_fst_zip (by simp), List.map_fst_zip (by simp)]
    rw [plain_noteLambdas, ← assignAll_extend m env hnames, ← hm.plain]
    rfl
  have hscope' := hD.scope_mono (hD.le_grow w env (bindings.map (·.1))) hscope
  refine ⟨hplain, hD.holds_extend hm.holds hscope _ fun v hv => (hvalues v hv).1, ?_⟩
  unfold Watched.fill
  simp only [hplain]
  have hframe := Store.frame_extend_size m.memory.store env
    ((bindings.map (·.1)).zip (bindings.map fun b => b.2.closeIn (m.inside env)))
  refine ⟨List.forall_mem_cons.2 ⟨⟨_, ⟨⟨_, env, body, hscope', hmem⟩, by simp, hframe⟩, hvalues⟩,
    hsound.allowed⟩, hsound.recorded.fill _ _⟩

/-! ### Evaluation -/

theorem same_mono (hD : D.Kept) {v v' : Value} (hw : w ≤ w') (h : D.Same w v v') :
    D.Same w' v v' :=
  ⟨h.1, hD.good_mono hw h.2⟩

/-- Primitives make good values of good values, and note nothing. -/
theorem applyPrimitive (p : Primitive) {args : List Value} (call : Exp) (hm : D.Watches w r m)
    (hargs : ∀ v ∈ args, D.Good w v) :
    Match D.Watches D.Same w (r.unnoted (applyPrimitive p args call))
      (Functional.applyPrimitive p args call m) := by
  have hrun := p.run_alike m.console.out (List.forall₂_same.2 hargs)
  rw [Machine.unnoted, hm.plain]
  unfold Functional.applyPrimitive
  revert hrun
  cases p.run args m.console.out with
  | value v out =>
    rintro (⟨-, -, hv⟩ | _)
    exact .value le_rfl (hm.of_store_eq rfl rfl rfl) ⟨rfl, hv⟩
  | fault e out => exact fun _ => .fault le_rfl (hm.of_store_eq rfl rfl rfl)
  | unfinished out => exact fun _ => .unfinished le_rfl (hm.of_store_eq rfl rfl rfl)

variable {sub : Exp → Env → Watched → Outcome Watched Value}
  {sub' : Exp → Env → State → Outcome State Value}

/-- Two ways to evaluate, with a journal and without, that keep to the discipline. -/
def Evaluates (D : Discipline W) (sub : Exp → Env → Watched → Outcome Watched Value)
    (sub' : Exp → Env → State → Outcome State Value) : Prop :=
  ∀ w e env r m, D.Watches w r m → D.scope w e env →
    Match D.Watches D.Same w (sub e env r) (sub' e env m)

theorem applyValue (hD : D.Kept) (hsub : Evaluates D sub sub') {f : Value} {args : List Value}
    (call callee : Exp) (hm : D.Watches w r m) (hf : D.Good w f)
    (hargs : ∀ v ∈ args, D.Good w v) :
    Match D.Watches D.Same w (watchApply sub call callee f args r)
      (Functional.applyValue sub' call callee f args m) := by
  cases f with
  | closure lambda env =>
    have hscope : D.scope w lambda.toExp env := hf.scope (lambda, env) (List.mem_singleton.2 rfl)
    have hmem : (lambda.formals, lambda.body) ∈ lambda.toExp.bodies := by
      simp [Lambda.toExp, Exp.bodies]
    simp only [watchApply, Functional.applyValue]
    split
    · next hlen =>
      have hinner : (r.bindIn env lambda.formals args).1 = m.inside env := by
        rw [← hm.plain]
        rfl
      rw [hinner]
      refine Match.of_le (hD.le_grow w env lambda.formals) (hsub _ _ _ _ _ ?_ ?_)
      · exact hD.bindIn hm hscope hmem hlen.symm hargs
      · exact hD.scope_body hm.holds.shape hscope hmem
    · exact .fault le_rfl hm
  | primitive p => exact applyPrimitive p call hm hargs
  | _ => exact .fault le_rfl hm

theorem bindEach (hD : D.Kept) (hsub : Evaluates D sub sub') {bindings : List (String × Exp)}
    (hm : D.Watches w r m) (hscope : D.scope w (.bind .sequential bindings body) env) :
    Match D.Watches (fun w inner inner' => inner = inner' ∧ D.scope w body inner) w
      (watchBindEach sub bindings env r) (Functional.bindEach sub' bindings env m) := by
  induction bindings generalizing w env r m with
  | nil => exact .value le_rfl hm ⟨rfl, hD.scope_part hscope (by simp [Exp.parts])⟩
  | cons b bs ih =>
    have hfirst : D.scope w b.2 env := hD.scope_part hscope (by simp [Exp.parts])
    refine (hsub w b.2 env r m hm hfirst).andThen ?_
    rintro w₁ hw₁ v _ r₁ m₁ hm₁ ⟨rfl, hv⟩
    have hrest : D.scope w₁ (.bind .sequential (b :: bs) body) env := hD.scope_mono hw₁ hscope
    have hmem : ([b.1], Exp.bind .sequential bs body)
        ∈ (Exp.bind .sequential (b :: bs) body).bodies := by simp [Exp.bodies]
    have hinner : (r₁.bindIn env [b.1] [v]).1 = m₁.inside env := by
      rw [← hm₁.plain]
      rfl
    simp only [hinner]
    refine Match.of_le (hD.le_grow w₁ env [b.1]) (ih ?_ ?_)
    · exact hD.bindIn hm₁ hrest hmem rfl (List.forall_mem_singleton.2 hv)
    · exact hD.scope_body hm₁.holds.shape hrest hmem

/-- A name that is looked up. -/
theorem var (hD : D.Kept) (hm : D.Watches w r m) {x : String} (hscope : D.scope w (.var x) env)
    (l : Limits) (left : Nat) :
    Match D.Watches D.Same w (watchForm l sub (.var x) env r)
      (eval l (left + 1) (.var x) env m) := by
  have hstore : r.store = m.memory.store := congrArg (·.memory.store) hm.plain
  simp only [watchForm, eval, hstore]
  cases hv : m.memory.store.get? env x with
  | none =>
    cases m.memory.store.holder? env x with
    | none => exact .fault le_rfl hm
    | some id => exact .fault le_rfl hm
  | some v =>
    obtain ⟨id, hid, hframe, hgood⟩ := hD.lookup hm.holds hscope hv
    simp only [hid]
    refine .value le_rfl ⟨hm.plain, hm.holds, ?_, hm.sound.recorded.read hframe⟩ ⟨rfl, hgood⟩
    exact List.forall_mem_cons.2 ⟨⟨w, hgood⟩, hm.sound.allowed⟩

/-- Recursive bindings.  Their initial values are evaluated in a frame of placeholders,
so this is not a matter of their evaluations keeping to the discipline. -/
theorem recursive (hD : D.Kept) (l : Limits) {left : Nat}
    (ih : Evaluates D (watch l left) (eval l left)) (hm : D.Watches w r m)
    (hscope : D.scope w (.bind .recursive bindings body) env) :
    Match D.Watches D.Same w (watchForm l (watch l left) (.bind .recursive bindings body) env r)
      (eval l (left + 1) (.bind .recursive bindings body) env m) := by
  cases hnon : nonLambda? bindings with
  | some e =>
    simp only [watchForm, eval, hnon]
    exact .fault le_rfl hm
  | none =>
    have hlambda := nonLambda?_eq_none_iff.1 hnon
    have hinner : (r.reserve env (bindings.map (·.1))).1 = m.inside env := by
      rw [← hm.plain]
      rfl
    have hfill := hD.fill hm hscope hlambda
    simp only [watchForm, hnon, hinner]
    cases left with
    | zero =>
      rw [eval_recursive_zero hnon]
      cases bindings with
      | nil => exact .fault (hD.le_grow w env []) hfill
      | cons b bs =>
        obtain ⟨w', hw', hreserved⟩ := hD.reserve hm hscope
        exact .fault hw' hreserved
    | succ left =>
      have hmem : (bindings.map (·.1), body) ∈ (Exp.bind .recursive bindings body).bodies := by
        simp [Exp.bodies]
      rw [eval_recursive_succ hnon, watchEach_lambdas hlambda, andThen_value]
      refine Match.of_le (hD.le_grow w env (bindings.map (·.1))) (ih _ _ _ _ _ hfill ?_)
      exact hD.scope_body hm.holds.shape hscope hmem

/-- One level of evaluation, from the levels below. -/
theorem watchForm (hD : D.Kept) (l : Limits) {left : Nat}
    (ih : Evaluates D (watch l left) (eval l left)) (hm : D.Watches w r m)
    (hscope : D.scope w e env) :
    Match D.Watches D.Same w (watchForm l (watch l left) e env r) (eval l (left + 1) e env m) := by
  -- a part of `e`, at any later world
  have hpart : ∀ part ∈ e.parts, ∀ w', w ≤ w' → ∀ r m, D.Watches w' r m →
      Match D.Watches D.Same w' (watch l left part env r) (eval l left part env m) :=
    fun part hp w' hw' r m hm => ih w' part env r m hm (hD.scope_mono hw' (hD.scope_part hscope hp))
  cases e with
  | literal d => exact .value le_rfl hm ⟨rfl, .ofDatum d⟩
  | var x => exact hD.var hm hscope l left
  | set x e =>
    refine (hpart e (by simp [Exp.parts]) w le_rfl r m hm).andThen ?_
    rintro w₁ hw₁ v _ r₁ m₁ hm₁ ⟨rfl, hv⟩
    have hstore : r₁.store = m₁.memory.store := congrArg (·.memory.store) hm₁.plain
    rw [hstore]
    cases hid : m₁.memory.store.holder? env x with
    | none => exact .fault le_rfl hm₁
    | some id =>
      exact .value le_rfl (hD.assign hm₁ (m₁.memory.store.holderIn_mem hid).2 hv) ⟨rfl, hv⟩
  | cond test yes no =>
    refine (hpart test (by simp [Exp.parts]) w le_rfl r m hm).andThen ?_
    rintro w₁ hw₁ v _ r₁ m₁ hm₁ ⟨rfl, -⟩
    split
    · exact hpart yes (by simp [Exp.parts]) w₁ hw₁ r₁ m₁ hm₁
    · exact hpart no (by simp [Exp.parts]) w₁ hw₁ r₁ m₁ hm₁
  | loop test body =>
    refine Match.evalWhile (fun _ => ⟨rfl, .bool false⟩) (fun hv => by rw [hv.1]) l.turns hm ?_ ?_
    · exact hpart test (by simp [Exp.parts])
    · exact hpart body (by simp [Exp.parts])
  | block parts =>
    exact Match.evalLast hm ⟨rfl, .bool false⟩ fun w' hw' e he => hpart e he w' hw'
  | apply callee args =>
    -- the worlds `w ≤ w₁ ≤ w₂`: the start, after the callee, after the arguments
    refine (hpart callee (by simp [Exp.parts]) w le_rfl r m hm).andThen ?_
    rintro w₁ hw₁ f _ r₁ m₁ hm₁ ⟨rfl, hf⟩
    refine (Match.evalEach (V := D.Same) hD.same_mono hm₁ fun w' hw' e he =>
      hpart e (by simp [Exp.parts, he]) w' (hw₁.trans hw')).andThen ?_
    rintro w₂ hw₂ vs vs' r₂ m₂ hm₂ ⟨-, hsame⟩
    obtain ⟨rfl, hvs⟩ := eq_and_good hsame
    have hf₂ : D.Good w₂ f := hD.good_mono hw₂ hf
    have hnoted : D.Watches w₂ (r₂.note (.applied (.apply callee args) f vs)) m₂ :=
      hm₂.note rfl ⟨hf₂, hvs⟩
    rw [hm₂.plain]
    refine Trace.match_around_same Watches.sameOnBoth (fun _ _ _ hv => by rw [hv.1]) hnoted
      (fun n r₃ m₃ hm₃ => hD.setTraceCount hm₃ env n) fun r₃ m₃ hm₃ => ?_
    exact hD.applyValue ih _ callee hm₃ hf₂ hvs
  | lambda label formals body => exact .value le_rfl hm ⟨rfl, .closure hscope⟩
  | bind kind bindings body =>
    cases kind with
    | plain =>
      refine (Match.evalEach (V := D.Same) hD.same_mono hm fun w' hw' b hb =>
        hpart b.2 (List.mem_map_of_mem hb) w' hw').andThen ?_
      rintro w₁ hw₁ vs vs' r₁ m₁ hm₁ ⟨hlen, hsame⟩
      obtain ⟨rfl, hvs⟩ := eq_and_good hsame
      have hscope₁ := hD.scope_mono hw₁ hscope
      have hmem : (bindings.map (·.1), body) ∈ (Exp.bind .plain bindings body).bodies := by
        simp [Exp.bodies]
      have hinner : (r₁.bindIn env (bindings.map (·.1)) vs).1 = m₁.inside env := by
        rw [← hm₁.plain]
        rfl
      simp only [hinner]
      refine Match.of_le (hD.le_grow w₁ env (bindings.map (·.1))) (ih _ _ _ _ _ ?_ ?_)
      · exact hD.bindIn hm₁ hscope₁ hmem (by simp [hlen]) hvs
      · exact hD.scope_body hm₁.holds.shape hscope₁ hmem
    | sequential =>
      refine (hD.bindEach ih hm hscope).andThen ?_
      rintro w₁ - inner _ r₁ m₁ hm₁ ⟨rfl, hbody⟩
      exact ih w₁ body inner r₁ m₁ hm₁ hbody
    | recursive => exact hD.recursive l ih hm hscope

/-- **Evaluations keep to the discipline,** with a journal and without, and come to the
same end. -/
theorem watch (hD : D.Kept) (l : Limits) (left : Nat) :
    Evaluates D (watch l left) (eval l left) := by
  induction left with
  | zero => exact fun w e env r m hm _ => .fault le_rfl hm
  | succ left ih =>
    intro w e env r m hm hscope
    have hstore : r.store = m.memory.store := congrArg (·.memory.store) hm.plain
    have hbegan : D.Allows w (.began e env r.store) := .inr ⟨hscope, hstore ▸ hm.holds⟩
    have hform := hD.watchForm l ih (hm.note rfl hbegan) hscope
    rw [Functional.watch]
    -- the value is noted on one side only
    revert hform
    generalize Functional.watchForm l (Functional.watch l left) e env
      (r.note (.began e env r.store)) = o
    generalize eval l (left + 1) e env m = o'
    intro hform
    cases hform with
    | value hw hm₁ hv => exact .value hw (hm₁.note rfl hv.2) hv
    | fault hw hm₁ => exact .fault hw hm₁
    | unfinished hw hm₁ => exact .unfinished hw hm₁

/-- An evaluation without a journal keeps to the discipline. -/
theorem eval (hD : D.Kept) (l : Limits) (left : Nat) (hglobals : 0 < m.memory.store.frames.size)
    (hfirst : m.memory.store.frames.size = D.first) (hm : D.Holds w m.memory.store)
    (hscope : D.scope w e env) :
    ∃ w', w ≤ w' ∧ D.Holds w' (eval l left e env m).state.memory.store ∧
      ∀ v s, Functional.eval l left e env m = .value v s → D.Good w' v := by
  have hmatch := hD.watch l left w e env m.journaled m (.journaled hglobals hfirst hm) hscope
  generalize Functional.eval l left e env m = o at hmatch ⊢
  generalize Functional.watch l left e env m.journaled = o' at hmatch
  cases hmatch with
  | @value w' _ _ _ _ hw hm₁ hv =>
    refine ⟨w', hw, hm₁.holds, fun v s heq => ?_⟩
    cases heq
    exact hv.1 ▸ hv.2
  | @fault w' _ _ _ hw hm₁ => exact ⟨w', hw, hm₁.holds, fun v s heq => nomatch heq⟩
  | @unfinished w' _ _ hw hm₁ => exact ⟨w', hw, hm₁.holds, fun v s heq => nomatch heq⟩

theorem withFirst (hD : D.Kept) (n : Nat) : Kept { D with first := n } where
  le_grow := hD.le_grow
  scope_mono := hD.scope_mono
  scope_part := hD.scope_part
  scope_body := hD.scope_body
  scope_live := hD.scope_live
  live_grow := hD.live_grow
  shape_extend := hD.shape_extend
  shape_update := hD.shape_update
  abandon := hD.abandon

/-- It makes no difference with how many frames an evaluation begins. -/
theorem eval_of_pos (hD : D.Kept) (l : Limits) (left : Nat)
    (hglobals : 0 < m.memory.store.frames.size) (hm : D.Holds w m.memory.store)
    (hscope : D.scope w e env) :
    ∃ w', w ≤ w' ∧ D.Holds w' (Functional.eval l left e env m).state.memory.store ∧
      ∀ v s, Functional.eval l left e env m = .value v s → D.Good w' v := by
  obtain ⟨w', hw, hholds, hgood⟩ := (hD.withFirst m.memory.store.frames.size).eval l left hglobals
    rfl ⟨hm.shape, hm.values⟩ hscope
  exact ⟨w', hw, ⟨hholds.shape, hholds.values⟩, hgood⟩

end Kept

end Discipline

end Primer.Functional
