/-
Primer/Proofs/Functional/Environments.lean

Environments as seen through each other.

An environment is a chain of frames, and environments share their frames: one made
inside another goes on with the frames of that one, and any number of handles may
stand for the same environment.  So a change that is made through one of them can
be seen through others, and the question is through which.

* An assignment writes to the innermost frame that binds the name.  It is seen by
  those environments that find the name in that very frame.
* A definition writes to the innermost frame of all, whether that frame binds the
  name or not.  It is seen by those environments that meet that frame before any
  other frame that binds the name.

In both cases it is seen under that name only (`mutation_reaches_its_variable`).
Stores are those that can be built by any operations in any order (`Built`); all
that has to be known about them is that handles are to frames that exist, and, for
the listing of an environment, that no frame binds a name twice (`Built.sound`).
-/
import Primer.Proofs.Frames

namespace Primer.Functional

/-! ### Operations on environments -/

/-- A store with the environments that there are handles to, after any operations on
environments. -/
inductive Built : Store → List Env → Prop
  | empty : Built .empty []
  /-- a new environment, of one frame that binds nothing -/
  | new {s : Store} {envs : List Env} : Built s envs → Built (s.root []).2 ((s.root []).1 :: envs)
  | extend {s : Store} {envs : List Env} {env : Env} (pairs : List (String × Value)) :
      Built s envs → env ∈ envs → Built (s.extend env pairs).2 ((s.extend env pairs).1 :: envs)
  | define {s : Store} {envs : List Env} {env : Env} (name : String) (v : Value) :
      Built s envs → env ∈ envs → Built (s.define env name v) envs
  /-- an assignment, which does nothing if the name is not bound -/
  | assign {s : Store} {envs : List Env} {env : Env} (name : String) (v : Value) :
      Built s envs → env ∈ envs → Built ((s.assign? env name v).getD s) envs
  | clear {s : Store} {envs : List Env} {env : Env} :
      Built s envs → env ∈ envs → Built (s.clear env) envs
  /-- one more handle to an environment -/
  | share {s : Store} {envs : List Env} {env : Env} :
      Built s envs → env ∈ envs → Built s (env :: envs)

/-- Handles are to frames that exist, and no frame binds a name twice. -/
structure Store.Sound (envs : List Env) (s : Store) : Prop where
  bound : ∀ env ∈ envs, ∀ id ∈ env.frames, id < s.frames.size
  distinct : ∀ id, (s.frame id).names.Nodup

namespace Store.Sound

variable {s : Store} {envs : List Env} {env : Env}

theorem extend (h : s.Sound envs) (env : Env) (pairs : List (String × Value)) :
    (s.extend env pairs).2.Sound envs where
  bound other hother id hid := by
    rw [size_extend]
    exact Nat.lt_succ_of_lt (h.bound other hother id hid)
  distinct id := by
    rw [frame_extend_eq]
    split
    · exact Bindings.nodup_names_setAll pairs List.nodup_nil
    · exact h.distinct id

theorem update (h : s.Sound envs) (id : FrameId) (name : String) (v : Value) :
    (s.update id name v).Sound envs where
  bound other hother id' hid' := by
    rw [size_update]
    exact h.bound other hother id' hid'
  distinct other := by
    rw [frame_update_eq]
    split
    · exact Bindings.nodup_names_setAll [(name, v)] (h.distinct id)
    · exact h.distinct other

theorem clear (h : s.Sound envs) (env : Env) : (s.clear env).Sound envs where
  bound other hother id hid := by
    rw [size_clear]
    exact h.bound other hother id hid
  distinct id := by
    rw [frame_clear]
    split
    · exact List.nodup_nil
    · exact h.distinct id

/-- One more handle, to frames that exist. -/
theorem cons (h : s.Sound envs) (henv : ∀ id ∈ env.frames, id < s.frames.size) :
    s.Sound (env :: envs) := by
  refine ⟨fun other hother => ?_, h.distinct⟩
  rcases List.mem_cons.1 hother with rfl | hother
  · exact henv
  · exact h.bound other hother

end Store.Sound

/-- Whatever operations a store is built by, it is sound. -/
theorem Built.sound {s : Store} {envs : List Env} (h : Built s envs) : s.Sound envs := by
  induction h with
  | empty => exact ⟨fun env henv => absurd henv List.not_mem_nil, fun id => List.nodup_nil⟩
  | @new s envs _ ih =>
    -- whatever is around it, a frame that binds nothing changes the store in the same way
    show Store.Sound _ (s.extend .globals []).2
    apply (ih.extend .globals []).cons
    intro id hid
    obtain rfl := List.mem_singleton.1 hid
    rw [Store.size_extend]
    exact Nat.lt_succ_self _
  | @extend s envs env pairs _ henv ih =>
    apply (ih.extend env pairs).cons
    intro id hid
    rw [Store.size_extend]
    rcases List.mem_cons.1 hid with rfl | hid
    · exact Nat.lt_succ_self _
    · exact Nat.lt_succ_of_lt (ih.bound env henv id hid)
  | define name v _ _ ih => exact ih.update _ name v
  | @assign s envs env name v _ _ ih =>
    unfold Store.assign?
    split
    · exact ih.update _ name v
    · exact ih
  | @clear s envs env _ _ ih => exact ih.clear env
  | share _ henv ih => exact ih.cons (ih.bound _ henv)

/-! ### Where a name is found -/

namespace Store

/-- One of some frames is met with no frame before it that binds the name. -/
def MeetsIn (s : Store) (name : String) (id : FrameId) (ids : List FrameId) : Prop :=
  ∃ before after, ids = before ++ id :: after ∧
    ∀ other ∈ before, (s.frame other).has name = false

/-- In an environment a frame is met with no frame before it that binds the name. -/
def Meets (s : Store) (env : Env) (name : String) (id : FrameId) : Prop :=
  s.MeetsIn name id env.frames

/-- An environment finds a name in a frame, the innermost that binds it. -/
def Finds (s : Store) (env : Env) (name : String) (id : FrameId) : Prop :=
  s.Meets env name id ∧ (s.frame id).has name = true

variable {s : Store} {name : String} {id other : FrameId} {ids : List FrameId}

theorem not_meetsIn_nil : ¬ s.MeetsIn name id [] := by
  rintro ⟨before, after, heq, -⟩
  exact List.append_ne_nil_of_right_ne_nil _ (List.cons_ne_nil _ _) heq.symm

theorem meetsIn_cons_iff :
    s.MeetsIn name id (other :: ids)
      ↔ other = id ∨ (s.frame other).has name = false ∧ s.MeetsIn name id ids := by
  constructor
  · rintro ⟨before, after, heq, hbefore⟩
    cases before with
    | nil => exact .inl (List.cons.inj heq).1
    | cons first before =>
      obtain ⟨rfl, hids⟩ := List.cons.inj heq
      refine .inr ⟨hbefore _ List.mem_cons_self, before, after, hids, fun o ho => ?_⟩
      exact hbefore o (List.mem_cons_of_mem _ ho)
  · rintro (rfl | ⟨hother, before, after, rfl, hbefore⟩)
    · exact ⟨[], ids, rfl, fun o ho => absurd ho List.not_mem_nil⟩
    · refine ⟨other :: before, after, rfl, fun o ho => ?_⟩
      rcases List.mem_cons.1 ho with rfl | ho
      · exact hother
      · exact hbefore o ho

/-- The frame that holds a name is the first that binds it. -/
theorem holderIn_eq_some_iff :
    s.holderIn name ids = some id ↔ s.MeetsIn name id ids ∧ (s.frame id).has name = true := by
  induction ids with
  | nil =>
    constructor
    · intro h
      cases h
    · exact fun h => absurd h.1 not_meetsIn_nil
  | cons other ids ih =>
    rw [meetsIn_cons_iff, holderIn]
    split
    · next hother =>
      constructor
      · intro h
        obtain rfl := Option.some.inj h
        exact ⟨.inl rfl, hother⟩
      · rintro ⟨rfl | ⟨hnot, -⟩, -⟩
        · rfl
        · rw [hother] at hnot
          cases hnot
    · next hother =>
      rw [Bool.not_eq_true] at hother
      rw [ih]
      constructor
      · exact fun h => ⟨.inr ⟨hother, h.1⟩, h.2⟩
      · rintro ⟨rfl | ⟨-, hmeets⟩, hhas⟩
        · rw [hother] at hhas
          cases hhas
        · exact ⟨hmeets, hhas⟩

theorem holder?_eq_some_iff {env : Env} : s.holder? env name = some id ↔ s.Finds env name id :=
  holderIn_eq_some_iff

/-- A name is found in at most one frame. -/
theorem Finds.unique {env : Env} (h : s.Finds env name id) (h' : s.Finds env name other) :
    id = other := by
  rw [← holder?_eq_some_iff] at h h'
  exact Option.some.inj (h.symm.trans h')

/-! ### What an update does to look-up -/

/-- Another name is found as before. -/
theorem getIn_update_ne {k : String} (h : k ≠ name) (id : FrameId) (v : Value)
    (ids : List FrameId) : (s.update id name v).getIn k ids = s.getIn k ids := by
  induction ids with
  | nil => rfl
  | cons other ids ih =>
    have hframe : ((s.update id name v).frame other).get? k = (s.frame other).get? k := by
      rw [frame_update_eq]
      split
      · next hid => rw [Bindings.get?_set_ne (Ne.symm h), hid.1]
      · rfl
    simp only [getIn, hframe, ih]

/-- Where the frame is met before the name is found elsewhere, the new value is found. -/
theorem getIn_update_of_meetsIn (hid : id < s.frames.size) (h : s.MeetsIn name id ids)
    (v : Value) : (s.update id name v).getIn name ids = some v := by
  induction ids with
  | nil => exact absurd h not_meetsIn_nil
  | cons other ids ih =>
    by_cases heq : other = id
    · subst heq
      rw [getIn, frame_update_self hid, Bindings.get?_set_self]
    · obtain ⟨hother, htail⟩ := (meetsIn_cons_iff.1 h).resolve_left heq
      rw [getIn, frame_update_ne heq, Bindings.has_eq_false_iff.1 hother]
      exact ih htail

/-- Where it is not, nothing changes. -/
theorem getIn_update_of_not_meetsIn (h : ¬ s.MeetsIn name id ids) (v : Value) :
    (s.update id name v).getIn name ids = s.getIn name ids := by
  induction ids with
  | nil => rfl
  | cons other ids ih =>
    rw [meetsIn_cons_iff, not_or, not_and] at h
    rw [getIn, getIn, frame_update_ne h.1]
    cases hget : (s.frame other).get? name with
    | some u => rfl
    | none => exact ih (h.2 (Bindings.has_eq_false_iff.2 hget))

/-- Between `s` and `s'` the value `v` was given to one variable of a name, which is the
variable that the environments with `sees` find under that name. -/
structure Gave (name : String) (v : Value) (sees : Env → Prop) (envs : List Env)
    (s s' : Store) : Prop where
  seen : ∀ env ∈ envs, sees env → s'.get? env name = some v
  unseen : ∀ env ∈ envs, ∀ k, k ≠ name ∨ ¬ sees env → s'.get? env k = s.get? env k

/-- An update is seen where the frame is met before the name is found elsewhere. -/
theorem gave_update (hid : id < s.frames.size) (name : String) (v : Value) (envs : List Env) :
    Gave name v (fun env => s.Meets env name id) envs s (s.update id name v) where
  seen _ _ h := getIn_update_of_meetsIn hid h v
  unseen env _ k h := by
    by_cases hk : k = name
    · subst hk
      exact getIn_update_of_not_meetsIn (h.resolve_left fun hne => hne rfl) v
    · exact getIn_update_ne hk id v env.frames

end Store

/-! ### Changes through an environment -/

section

variable {s : Store} {envs : List Env} {env : Env}

/-- An assignment succeeds exactly if the name has a value. -/
theorem isSome_assign?_iff (name : String) (v : Value) :
    (s.assign? env name v).isSome = true ↔ ∃ u, s.get? env name = some u := by
  rw [← Option.isSome_iff_exists, Store.get?, Store.getIn_eq_bind, Store.assign?, Store.holder?]
  cases hholder : s.holderIn name env.frames with
  | none => rfl
  | some id =>
    have hhas := (s.holderIn_mem hholder).2
    rw [Bindings.has_eq_isSome] at hhas
    exact ⟨fun _ => hhas, fun _ => rfl⟩

/-- An assignment is seen by those that find the name in the same frame. -/
theorem gave_assign (h : s.Sound envs) (henv : env ∈ envs) (name : String) (v : Value) :
    s.Gave name v (fun f => ∃ id, s.Finds env name id ∧ s.Finds f name id) envs
      ((s.assign? env name v).getD s) := by
  unfold Store.assign?
  cases hholder : s.holder? env name with
  | none =>
    -- the name is found nowhere, so there is nobody who could see it
    have hnot : ∀ id, ¬ s.Finds env name id := by
      intro id hid
      rw [← Store.holder?_eq_some_iff, hholder] at hid
      cases hid
    refine ⟨fun f _ hsees => ?_, fun f _ k _ => rfl⟩
    obtain ⟨id, hid, -⟩ := hsees
    exact absurd hid (hnot id)
  | some id =>
    have hfinds : s.Finds env name id := Store.holder?_eq_some_iff.1 hholder
    have hmem : id ∈ env.frames := (s.holderIn_mem hholder).1
    have hgave := Store.gave_update (h.bound env henv id hmem) name v envs
    -- to meet a frame that binds the name is to find the name there
    have hiff : ∀ f, (∃ id, s.Finds env name id ∧ s.Finds f name id)
        ↔ s.Meets f name id := by
      intro f
      constructor
      · rintro ⟨id', hid', hf⟩
        rw [hfinds.unique hid']
        exact hf.1
      · exact fun hf => ⟨id, hfinds, hf, hfinds.2⟩
    refine ⟨fun f hf hsees => hgave.seen f hf ((hiff f).1 hsees), fun f hf k hk => ?_⟩
    exact hgave.unseen f hf k (hk.imp_right fun hnot hsees => hnot ((hiff f).2 hsees))

/-- A new frame changes nothing for the environments there are. -/
theorem get?_extend (h : s.Sound envs) {f : Env} (hf : f ∈ envs) (env : Env)
    (pairs : List (String × Value)) (k : String) :
    (s.extend env pairs).2.get? f k = s.get? f k :=
  Store.getIn_congr (fun id hid => Store.frame_extend (h.bound f hf id hid) env pairs) k

/-- A change that is made through one environment reaches one variable, and is seen
through every environment that has this variable under the name, and through no other.
An assignment goes to the variable that the environment itself finds, and succeeds if it
finds one.  A definition goes to the variable of the environment's own frame.  A new
environment changes nothing for those that there are. -/
theorem mutation_reaches_its_variable (h : Built s envs) (henv : env ∈ envs) (name : String)
    (v : Value) :
    ((s.assign? env name v).isSome = true ↔ ∃ u, s.get? env name = some u) ∧
    s.Gave name v (fun f => ∃ id, s.Finds env name id ∧ s.Finds f name id) envs
      ((s.assign? env name v).getD s) ∧
    s.Gave name v (fun f => s.Meets f name env.inner) envs (s.define env name v) ∧
    ∀ pairs, ∀ f ∈ envs, ∀ k, (s.extend env pairs).2.get? f k = s.get? f k := by
  have hsound := h.sound
  refine ⟨isSome_assign?_iff name v, gave_assign hsound henv name v, ?_, ?_⟩
  · exact Store.gave_update (hsound.bound env henv env.inner List.mem_cons_self) name v envs
  · exact fun pairs f hf k => get?_extend hsound hf env pairs k

/-- Two environments in a third, the first of which hides a name of the third, and one
more handle to the third: what is assigned to the name through the second is seen through
the third and not through the first, and what is defined there is not seen through the
third. -/
theorem mutation_reaches_its_variable_shadowed :
    let outer : Env := ⟨0, []⟩
    let inner : Env := ⟨1, [0]⟩
    let beside : Env := ⟨2, [0]⟩
    let s : Store := ⟨#[[("x", .bool true)], [("y", .nil), ("x", .bool false)], [("y", .nil)]]⟩
    let envs := [outer, beside, inner, outer]
    Built s envs ∧ beside ∈ envs ∧
      ((s.assign? beside "x" .nil).getD s).get? outer "x" = some .nil ∧
      ((s.assign? beside "x" .nil).getD s).get? inner "x" = s.get? inner "x" ∧
      (s.define beside "x" .nil).get? outer "x" = s.get? outer "x" := by
  intro outer inner beside s envs
  have hbuilt : Built s envs := by
    have hfilled : Built ⟨#[[("x", .bool true)]]⟩ [outer] :=
      .define "x" _ (.clear (.define "z" .nil (.new .empty) (.head _)) (.head _)) (.head _)
    have hinner : Built ⟨#[[("x", .bool true)], [("y", .nil), ("x", .bool false)]]⟩
        [inner, outer] :=
      hfilled.extend [("y", .nil), ("x", .nil), ("x", .bool false)] (.head _)
    have hbeside : Built s [beside, inner, outer] :=
      hinner.extend [("y", .nil)] (.tail _ (.head _))
    exact hbeside.share (.tail _ (.tail _ (.head _)))
  have hmem : beside ∈ envs := .tail _ (.head _)
  obtain ⟨-, hassign, hdefine, -⟩ := mutation_reaches_its_variable hbuilt hmem "x" .nil
  have hfound : s.Finds beside "x" 0 := Store.holder?_eq_some_iff.1 rfl
  refine ⟨hbuilt, hmem, ?_, ?_, ?_⟩
  · exact hassign.seen outer (.head _) ⟨0, hfound, Store.holder?_eq_some_iff.1 rfl⟩
  · refine hassign.unseen inner (.tail _ (.tail _ (.head _))) "x" (.inr ?_)
    rintro ⟨id, hid, hother⟩
    have hone : s.Finds inner "x" 1 := Store.holder?_eq_some_iff.1 rfl
    rw [← hfound.unique hid] at hother
    exact absurd (hone.unique hother) (by decide)
  · refine hdefine.unseen outer (.head _) "x" (.inr fun hmeets => ?_)
    rcases Store.meetsIn_cons_iff.1 hmeets with heq | ⟨-, hnone⟩
    · exact absurd heq (by decide)
    · exact Store.not_meetsIn_nil hnone

end

end Primer.Functional
