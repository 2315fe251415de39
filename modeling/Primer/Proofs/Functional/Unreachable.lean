/-
Primer/Proofs/Functional/Unreachable.lean

Frames that cannot be reached.

A program gets at a frame in one of two ways: the frame is in its environment,
or a closure that it gets hold of has captured it.  `Store.Reachable` is what
it can get at in this way to begin with.  No evaluation ever gets further, but
for the frames that it makes itself.  So to unbind all names of frames that
cannot be reached, and thereby to let go of what these frames hold, changes
nothing: the evaluation ends in the same way, or not at all, writes the same and
leaves every other frame with the same contents, and the frames are out of
reach still (`unreachable_frames_are_irrelevant`).

The two evaluations are compared by a `Coupling`.  Its states agree on all
frames that were not emptied.  What keeps it going is a set `P` of frames that
is closed: closures in frames of `P` capture frames of `P` only
(`Store.ClosedIn`).  Literals are data, and the value of a datum has no closures,
so they add nothing to what can be reached.
-/
import Primer.Proofs.DepthLimit
import Primer.Proofs.Functional.Untraced

namespace Primer.Functional

open Outcome

/-! ### Emptied frames -/

namespace Store

variable {s s' : Store} {P : FrameId → Prop}

theorem size_clearAll (ids : List FrameId) (s : Store) :
    (s.clearAll ids).frames.size = s.frames.size := by
  induction ids generalizing s with
  | nil => rfl
  | cons id ids ih =>
    show ((s.clear ⟨id, []⟩).clearAll ids).frames.size = s.frames.size
    rw [ih, size_clear]

/-- Frames that are not emptied stay as they are. -/
theorem frame_clearAll {ids : List FrameId} {id : FrameId} (h : id ∉ ids) (s : Store) :
    (s.clearAll ids).frame id = s.frame id := by
  induction ids generalizing s with
  | nil => rfl
  | cons other ids ih =>
    show ((s.clear ⟨other, []⟩).clearAll ids).frame id = s.frame id
    rw [ih (List.not_mem_of_not_mem_cons h), frame_clear, if_neg (List.ne_of_not_mem_cons h)]

/-! ### Closed sets of frames -/

/-- Closures in frames of `P` capture frames of `P` only, and every frame that is yet to
be made is in `P`. -/
structure ClosedIn (P : FrameId → Prop) (s : Store) : Prop where
  later : ∀ id, s.frames.size ≤ id → P id
  captured : ∀ id, P id → ∀ b ∈ s.frame id, ∀ c ∈ b.2.closures, ∀ id' ∈ c.2.frames, P id'

/-- A closed set of frames holds all that can be reached from within it. -/
theorem ClosedIn.of_reachable (h : s.ClosedIn P) {roots : List FrameId}
    (hroots : ∀ id ∈ roots, P id) {id : FrameId} (hid : s.Reachable roots id) : P id := by
  induction hid with
  | root hid => exact hroots _ hid
  | captured _ hb hc hid' ih => exact h.captured _ ih _ hb _ hc _ hid'

/-- The frames that can be reached, and those that do not exist yet. -/
def Accessible (s : Store) (roots : List FrameId) (id : FrameId) : Prop :=
  s.Reachable roots id ∨ s.frames.size ≤ id

theorem closedIn_accessible (s : Store) (roots : List FrameId) :
    s.ClosedIn (s.Accessible roots) where
  later _ hid := .inr hid
  captured id hid b hb c hc id' hid' := by
    -- a frame that does not exist yet holds nothing
    rcases hid with hid | hid
    · exact .inl (.captured hid hb hc hid')
    · rw [frame_of_size_le _ hid] at hb
      cases hb

theorem ClosedIn.update (h : s.ClosedIn P) {v : Value}
    (hv : ∀ c ∈ v.closures, ∀ id' ∈ c.2.frames, P id') (id : FrameId) (x : String) :
    (s.update id x v).ClosedIn P where
  later other hother := h.later other (by rwa [size_update] at hother)
  captured other hother b hb := by
    rw [frame_update_eq] at hb
    split at hb
    · next hid =>
      rcases Bindings.mem_set hb with hb | rfl
      · exact h.captured id (hid.1 ▸ hother) b hb
      · exact hv
    · exact h.captured other hother b hb

theorem ClosedIn.extend (h : s.ClosedIn P) (env : Env) {pairs : List (String × Value)}
    (hpairs : ∀ p ∈ pairs, ∀ c ∈ p.2.closures, ∀ id' ∈ c.2.frames, P id') :
    (s.extend env pairs).2.ClosedIn P where
  later id hid := h.later id (by rw [size_extend] at hid; omega)
  captured id hid b hb := by
    rw [frame_extend_eq] at hb
    split at hb
    · exact hpairs b (Bindings.mem_of_mem_ofList hb)
    · exact h.captured id hid b hb

end Store

/-! ### Evaluation with and without the frames -/

section

variable {P : FrameId → Prop} {dead : List FrameId} {m m' : State} {env : Env} {x : String}

/-- Two states that differ at most in the contents of some frames. -/
structure SameExcept (dead : List FrameId) (m m' : State) : Prop where
  size : m.memory.store.frames.size = m'.memory.store.frames.size
  frames : ∀ id, id ∉ dead → m.memory.store.frame id = m'.memory.store.frame id
  labels : m.memory.nextLabel = m'.memory.nextLabel
  console : m.console = m'.console
  indent : m.indent = m'.indent

theorem sameExcept_clearAll (dead : List FrameId) (m : State) :
    SameExcept dead m (m.mapStore (Store.clearAll dead)) where
  size := (Store.size_clearAll dead _).symm
  frames _ hid := (Store.frame_clearAll hid _).symm
  labels := rfl
  console := rfl
  indent := rfl

theorem SameExcept.update (h : SameExcept dead m m') (id : FrameId) (x : String) (v : Value) :
    SameExcept dead (m.mapStore fun s => s.update id x v)
      (m'.mapStore fun s => s.update id x v) where
  size := by simp only [State.mapStore, Store.size_update, h.size]
  frames other hother := by
    show (m.memory.store.update id x v).frame other = (m'.memory.store.update id x v).frame other
    rw [Store.frame_update_eq, Store.frame_update_eq, h.size, h.frames other hother]
    split
    · next hid => rw [h.frames id (hid.1 ▸ hother)]
    · rfl
  labels := h.labels
  console := h.console
  indent := h.indent

theorem SameExcept.extend (h : SameExcept dead m m') (env : Env)
    (pairs : List (String × Value)) :
    SameExcept dead (m.extend env pairs).2 (m'.extend env pairs).2 where
  size := by simp only [State.extend, State.mapStore, Store.size_extend, h.size]
  frames id hid := by
    show (m.memory.store.extend env pairs).2.frame id
      = (m'.memory.store.extend env pairs).2.frame id
    rw [Store.frame_extend_eq, Store.frame_extend_eq, h.size, h.frames id hid]
  labels := h.labels
  console := h.console
  indent := h.indent

/-- States that agree on all frames but the `dead` ones, with `P` closed; and the same
environment, within `P`, on both sides. -/
def collectedCoupling (P : FrameId → Prop) (dead : List FrameId) : Coupling OneWorld where
  state _ m m' := SameExcept dead m m' ∧ m.memory.store.ClosedIn P
  scope _ _ env env' := env = env' ∧ ∀ id ∈ env.frames, P id
  hole := True
  grow _ _ := .only

theorem collected_value_eq {v v' : Value} (h : (collectedCoupling P dead).value .only v v') :
    v = v' :=
  Value.Alike.eq (fun _ _ _ hf => hf.1) h

theorem collected_captured {v v' : Value} (h : (collectedCoupling P dead).value .only v v') :
    ∀ c ∈ v.closures, ∀ id ∈ c.2.frames, P id := by
  intro c hc
  obtain ⟨env', henv⟩ := Value.Alike.exists_of_mem_closures h hc
  exact henv.2

/-- A value whose closures capture frames of `P` only goes with itself. -/
theorem collected_value {v : Value} (h : ∀ c ∈ v.closures, ∀ id ∈ c.2.frames, P id) :
    (collectedCoupling P dead).value .only v v :=
  Value.Alike.of_closures trivial v fun c hc => ⟨rfl, h c hc⟩

theorem collected_extend (hm : (collectedCoupling P dead).state .only m m') (env : Env)
    (names : List String) {vs vs' : List Value}
    (hvs : List.Forall₂ ((collectedCoupling P dead).value .only) vs vs') :
    (collectedCoupling P dead).state .only (m.extend env (names.zip vs)).2
      (m'.extend env (names.zip vs')).2 := by
  obtain rfl : vs = vs' := by
    rw [← List.forall₂_eq_eq_eq]
    exact hvs.imp fun _ _ => collected_value_eq
  refine ⟨hm.1.extend env _, hm.2.extend env ?_⟩
  intro p hp
  have hv : p.2 ∈ vs := (List.of_mem_zip hp).2
  exact collected_captured (List.forall₂_same.1 hvs p.2 hv)

/-- A name is found in the same frame on both sides, with the same value. -/
theorem collected_lookup (hP : ∀ id, P id → id ∉ dead)
    (hm : (collectedCoupling P dead).state .only m m') (henv : ∀ id ∈ env.frames, P id) :
    m.memory.store.get? env x = m'.memory.store.get? env x ∧
      m.memory.store.holder? env x = m'.memory.store.holder? env x := by
  have hframes : ∀ id ∈ env.frames, m.memory.store.frame id = m'.memory.store.frame id :=
    fun id hid => hm.1.frames id (hP id (henv id hid))
  exact ⟨Store.getIn_congr hframes x, Store.holderIn_congr hframes x⟩

theorem collected_var (hP : ∀ id, P id → id ∉ dead)
    (hm : (collectedCoupling P dead).state .only m m') (henv : ∀ id ∈ env.frames, P id) :
    Option.Rel ((collectedCoupling P dead).value .only) (m.memory.store.get? env x)
      (m'.memory.store.get? env x) := by
  rw [← (collected_lookup hP hm henv).1]
  cases hv : m.memory.store.get? env x with
  | none => exact .none
  | some v =>
    obtain ⟨id, hid, hframe⟩ := Store.getIn_mem _ hv
    refine .some (collected_value ?_)
    exact hm.2.captured id (henv id hid) (x, v) (Bindings.mem_of_get? hframe)

theorem collected_set (hP : ∀ id, P id → id ∉ dead)
    (hm : (collectedCoupling P dead).state .only m m') (henv : ∀ id ∈ env.frames, P id)
    {v v' : Value} (hv : (collectedCoupling P dead).value .only v v') :
    Option.Rel (fun id id' => (collectedCoupling P dead).state .only
        (m.mapStore fun s => s.update id x v) (m'.mapStore fun s => s.update id' x v'))
      (m.memory.store.holder? env x) (m'.memory.store.holder? env x) := by
  obtain rfl := collected_value_eq hv
  rw [← (collected_lookup hP hm henv).2]
  cases m.memory.store.holder? env x with
  | none => exact .none
  | some id => exact .some ⟨hm.1.update id x v, hm.2.update (collected_captured hv) id x⟩

/-- Evaluation does not tell whether frames outside of a closed set have been emptied. -/
theorem collectedCoupling_simulates (hP : ∀ id, P id → id ∉ dead) :
    (collectedCoupling P dead).Simulates where
  le_grow _ _ := le_rfl
  scope_mono _ h := h
  scope_part h _ := h
  scope_body := by
    rintro w e env env' names body m m' hm ⟨rfl, henv⟩ -
    refine ⟨?_, fun id hid => ?_⟩
    · rw [State.inside, State.inside, hm.1.size]
    · -- the new frame is one of those that did not exist yet
      rcases List.mem_cons.1 hid with rfl | hid
      · exact hm.2.later _ (Nat.le_refl _)
      · exact henv id hid
  extend := by
    rintro w e env env' names body m m' vs vs' hm ⟨rfl, -⟩ - - hvs
    exact collected_extend hm env names hvs
  placeholders := by
    rintro w env env' bindings body m m' hm ⟨rfl, -⟩
    refine ⟨.only, le_rfl, ?_⟩
    rw [map_placeholder_eq_zip]
    refine collected_extend hm env _ (List.forall₂_same.2 fun v hv => ?_)
    obtain ⟨b, -, rfl⟩ := List.mem_map.1 hv
    exact .unspecified trivial
  var := by
    rintro w x env env' m m' hm ⟨rfl, henv⟩
    exact collected_var hP hm henv
  set := by
    rintro w x e env env' m m' v v' hm ⟨rfl, henv⟩ hv
    exact collected_set hP hm henv hv
  out_eq hm := by rw [hm.1.console]
  withOut hm out :=
    ⟨⟨hm.1.size, hm.1.frames, hm.1.labels, by simp only [Machine.withOut, hm.1.console],
      hm.1.indent⟩, hm.2⟩
  around := by
    rintro w callee args env env' m m' call run run' hm ⟨rfl, henv⟩ hrun
    refine Coupling.match_around (c := collectedCoupling P dead) ⟨?_, ?_, ?_⟩
      (collected_var hP hm henv) (fun n t t' ht => collected_set hP ht henv (.number n)) hm
      fun s s' => hrun w le_rfl s s'
    · exact fun hs => hs.1.console
    · exact fun hs => hs.1.indent
    · intro w s s' hs diag indent
      exact ⟨⟨hs.1.size, hs.1.frames, hs.1.labels, by simp only [Machine.withDiag, hs.1.console],
        rfl⟩, hs.2⟩

end

/-! ### What can be reached at the end -/

/-- The frames captured by the value that an evaluation ended in, if it did. -/
def capturedAtEnd {σ : Type} : Outcome σ Value → List FrameId
  | .value v _ => v.captured
  | _ => []

/-- At the end of an evaluation in `env` some frames can be reached neither from its value
nor from `env` nor from the globals. -/
def OutOfReach (dead : List FrameId) (env : Env) (o : Outcome State Value) : Prop :=
  ∀ id ∈ dead, ¬ o.state.memory.store.Reachable
    (capturedAtEnd o ++ env.frames ++ Env.globals.frames) id

/-- The same kind of end, in the same value or error and in states that differ at most in
the contents of the `dead` frames, which are out of reach on both sides. -/
def SameOutOfReach (dead : List FrameId) (env : Env) (o o' : Outcome State Value) : Prop :=
  Agree (SameExcept dead) Eq o o' ∧ OutOfReach dead env o ∧ OutOfReach dead env o'

/-- What is in reach of an end is in `P`, if what it began with was. -/
theorem outOfReach_of_closedIn {P : FrameId → Prop} {dead : List FrameId} {env : Env}
    (hP : ∀ id, P id → id ∉ dead) (henv : ∀ id ∈ env.frames ++ Env.globals.frames, P id)
    {o : Outcome State Value} (hclosed : o.state.memory.store.ClosedIn P)
    (hvalue : ∀ id ∈ capturedAtEnd o, P id) : OutOfReach dead env o := by
  intro id hdead hreach
  refine hP id (hclosed.of_reachable (fun root hroot => ?_) hreach) hdead
  rw [List.append_assoc] at hroot
  rcases List.mem_append.1 hroot with hroot | hroot
  · exact hvalue root hroot
  · exact henv root hroot

theorem SameExcept.closedIn {P : FrameId → Prop} {dead : List FrameId} {m m' : State}
    (h : SameExcept dead m m') (hP : ∀ id, P id → id ∉ dead) (hm : m.memory.store.ClosedIn P) :
    m'.memory.store.ClosedIn P where
  later id hid := hm.later id (by rwa [h.size])
  captured id hid b hb := by
    rw [← h.frames id (hP id hid)] at hb
    exact hm.captured id hid b hb

/-- Evaluations that go together end with the emptied frames out of reach. -/
theorem sameOutOfReach_of_match {P : FrameId → Prop} {dead : List FrameId} {env : Env}
    (hP : ∀ id, P id → id ∉ dead) (henv : ∀ id ∈ env.frames ++ Env.globals.frames, P id)
    {o o' : Outcome State Value}
    (h : Match (collectedCoupling P dead).state (collectedCoupling P dead).value .only o o') :
    SameOutOfReach dead env o o' := by
  refine ⟨h.forget (fun _ _ _ hs => hs.1) fun _ _ _ => collected_value_eq, ?_⟩
  have hstate : o.state.memory.store.ClosedIn P ∧ o'.state.memory.store.ClosedIn P := by
    obtain ⟨w, -, hs⟩ := h.state
    exact ⟨hs.2, hs.1.closedIn hP hs.2⟩
  have hcaptured : capturedAtEnd o = capturedAtEnd o' ∧ ∀ id ∈ capturedAtEnd o, P id := by
    cases h with
    | value _ _ hv =>
      refine ⟨congrArg Value.captured (collected_value_eq hv), fun id hid => ?_⟩
      obtain ⟨c, hc, hid⟩ := List.mem_flatMap.1 hid
      exact collected_captured hv c hc id hid
    | fault _ _ => exact ⟨rfl, fun id hid => nomatch hid⟩
    | unfinished _ _ => exact ⟨rfl, fun id hid => nomatch hid⟩
  refine ⟨outOfReach_of_closedIn hP henv hstate.1 hcaptured.2, ?_⟩
  exact outOfReach_of_closedIn hP henv hstate.2 (hcaptured.1 ▸ hcaptured.2)

/-- **Frames that cannot be reached are irrelevant.**  If some frames can be reached
neither from an environment nor from the globals, an evaluation in that
environment does the same when these frames have been emptied before: it does
not end, or ends in the same value or error, with the same in every other frame,
and has written the same at every moment; and the frames are out of reach
still. -/
theorem unreachable_frames_are_irrelevant (e : Exp) (env : Env) (m : State)
    (dead : List FrameId) (depth start : Nat)
    (hdead : ∀ id ∈ dead, id < m.memory.store.frames.size ∧
      ¬ m.memory.store.Reachable (env.frames ++ Env.globals.frames) id) :
    let run := evalFrom depth start e env m
    let run' := evalFrom depth start e env (m.mapStore (Store.clearAll dead))
    EndTogether (SameOutOfReach dead env) run run' ∧
      ∀ turns, (run turns).state.console = (run' turns).state.console := by
  intro run run'
  let P := m.memory.store.Accessible (env.frames ++ Env.globals.frames)
  have hP : ∀ id, P id → id ∉ dead := by
    rintro id (hid | hid) hmem
    · exact (hdead id hmem).2 hid
    · exact Nat.not_lt.2 hid (hdead id hmem).1
  have henv : ∀ id ∈ env.frames ++ Env.globals.frames, P id := fun id hid => .inl (.root hid)
  have hmatch : ∀ turns, Match (collectedCoupling P dead).state (collectedCoupling P dead).value
      .only (run turns) (run' turns) := by
    intro turns
    refine (collectedCoupling_simulates hP).eval ⟨depth, turns⟩ (depth - start) e ?_ ?_
    · exact ⟨sameExcept_clearAll dead m, Store.closedIn_accessible _ _⟩
    · exact ⟨rfl, fun id hid => henv id (List.mem_append_left _ hid)⟩
  refine ⟨endTogether_of_forall (fun turns => (hmatch turns).finished_eq) fun turns _ => ?_, ?_⟩
  · exact sameOutOfReach_of_match hP henv (hmatch turns)
  · intro turns
    obtain ⟨w, -, hs⟩ := (hmatch turns).state
    exact hs.1.console

/-- A frame that is kept alive only by a closure of its own and by another frame that
cannot be reached either, emptied before a list of functions is taken apart. -/
theorem unreachable_frames_are_irrelevant_cycle :
    let f : Lambda := ⟨0, ["x"], .var "x"⟩
    let g : Lambda := ⟨1, [], .apply (.var "g") []⟩
    let globals : Frame :=
      [("cons", .primitive .cons), ("car", .primitive .car), ("f", .closure f .globals)]
    let m : State := ⟨⟨⟨#[globals, [("g", .closure g ⟨1, [0]⟩)],
      [("h", .pair (.closure g ⟨1, [0]⟩) .nil)]]⟩, 2⟩, .empty, 0⟩
    let e : Exp := .bind .plain [("p", .apply (.var "cons") [.var "f", .var "f"])]
      (.apply (.var "car") [.var "p"])
    (∀ id ∈ [1], id < m.memory.store.frames.size ∧
        ¬ m.memory.store.Reachable (Env.globals.frames ++ Env.globals.frames) id) ∧
      EndTogether (SameOutOfReach [1] .globals) (evalFrom 9 0 e .globals m)
        (evalFrom 9 0 e .globals (m.mapStore (Store.clearAll [1]))) := by
  intro f g globals m e
  have hclosure : ∀ b ∈ globals, ∀ c ∈ b.2.closures, c = (f, .globals) := by
    simp [globals, Value.closures]
  -- from the globals nothing but the globals can be reached
  have hreach : ∀ id, m.memory.store.Reachable (Env.globals.frames ++ Env.globals.frames) id →
      id = 0 := by
    intro id hid
    induction hid with
    | root h => simpa [Env.frames, Env.globals] using h
    | captured _ hb hc hid' ih =>
      subst ih
      obtain rfl := hclosure _ hb _ hc
      simpa [Env.frames, Env.globals] using hid'
  have hdead : ∀ id ∈ [1], id < m.memory.store.frames.size ∧
      ¬ m.memory.store.Reachable (Env.globals.frames ++ Env.globals.frames) id := by
    intro id hid
    obtain rfl := List.mem_singleton.1 hid
    exact ⟨by decide, fun h => absurd (hreach 1 h) (by decide)⟩
  exact ⟨hdead, (unreachable_frames_are_irrelevant e .globals m [1] 9 0 hdead).1⟩

end Primer.Functional
