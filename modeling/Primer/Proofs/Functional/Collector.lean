/-
Primer/Proofs/Functional/Collector.lean

The collector is not noticed.

A collection finds the tracked frames that cannot be reached from what is held, from
the globals or from the pins (`Store.mem_garbage_iff`), and empties them.  Beside an
evaluation that collects we put the one that does not, from the same state.  Their
states have the same in every frame that is in use, and any other frame has the same
contents too or has been emptied (`SameInUse`).  As no evaluation gets at a frame that
is not in use, the two come to the same end and write the same (`alongside_eval`),
and so do whole sessions (`collected_sessions_agree`).

What is held changes from step to step: a value that was at hand is dropped, another
one takes its place.  So the relation between the states has the frames that are held
as a parameter, and the worlds of `Outcome.Match` say which further frames the value of
the step just done keeps in use.  Worlds that follow one another have nothing to do with
each other.
-/
import Primer.Functional.Collector
import Primer.Proofs.Functional.Unreachable
import Primer.Proofs.Sessions

namespace Primer.Functional

open Outcome

theorem append_subset_append {as as' bs bs' : List FrameId} (ha : as ⊆ as') (hb : bs ⊆ bs') :
    as ++ bs ⊆ as' ++ bs' :=
  List.append_subset.2 ⟨List.subset_append_of_subset_left _ ha,
    List.subset_append_of_subset_right _ hb⟩

/-! ### What can be reached -/

theorem Value.mem_captured {v : Value} {id : FrameId} :
    id ∈ v.captured ↔ ∃ c ∈ v.closures, id ∈ c.2.frames :=
  List.mem_flatMap

namespace Store

variable {s : Store} {roots roots' rest pending : List FrameId} {id id' : FrameId}

theorem Reachable.of_roots (h : s.Reachable roots' id)
    (hroots : ∀ root ∈ roots', s.Reachable roots root) : s.Reachable roots id := by
  induction h with
  | root h => exact hroots _ h
  | captured _ hb hc hid ih => exact .captured ih hb hc hid

theorem Reachable.mono (h : s.Reachable roots' id) (hsub : roots' ⊆ roots) :
    s.Reachable roots id :=
  h.of_roots fun _ hroot => .root (hsub hroot)

theorem mem_capturedIn :
    id' ∈ s.capturedIn id ↔ ∃ b ∈ s.frame id, id' ∈ b.2.captured :=
  List.mem_flatMap

theorem Reachable.of_capturedIn (h : s.Reachable roots id) (hid : id' ∈ s.capturedIn id) :
    s.Reachable roots id' := by
  obtain ⟨b, hb, hid⟩ := mem_capturedIn.1 hid
  obtain ⟨c, hc, hid⟩ := Value.mem_captured.1 hid
  exact .captured h hb hc hid

/-- What the name of a frame is bound to keeps nothing in use that the frame does not. -/
theorem Reachable.of_get? (h : s.Reachable roots id) {x : String} {v : Value}
    (hv : (s.frame id).get? x = some v) (hid : id' ∈ v.captured) : s.Reachable roots id' :=
  h.of_capturedIn (mem_capturedIn.2 ⟨(x, v), Bindings.mem_of_get? hv, hid⟩)

/-- A value bound to a name of a frame makes nothing reachable that was not, if what it
captured was. -/
theorem reachable_of_update {x : String} {v : Value}
    (hv : ∀ id ∈ v.captured, s.Reachable roots id)
    (h : (s.update id x v).Reachable roots id') : s.Reachable roots id' := by
  induction h with
  | root h => exact .root h
  | captured _ hb hc hid ih =>
    rw [frame_update_eq] at hb
    split at hb
    · next heq =>
      rcases Bindings.mem_set hb with hb | rfl
      · exact .captured (heq.1 ▸ ih) hb hc hid
      · exact hv _ (Value.mem_captured.2 ⟨_, hc, hid⟩)
    · exact .captured ih hb hc hid

/-- A new frame can be reached, and otherwise what could be before. -/
theorem reachable_of_extend (env : Env) {pairs : List (String × Value)}
    (hpairs : ∀ p ∈ pairs, ∀ id ∈ p.2.captured, s.Reachable roots id)
    (hroots : ∀ root ∈ roots', root = s.frames.size ∨ s.Reachable roots root)
    (h : (s.extend env pairs).2.Reachable roots' id) :
    id = s.frames.size ∨ s.Reachable roots id := by
  induction h with
  | root h => exact hroots _ h
  | @captured id id' b c _ hb hc hid ih =>
    rw [frame_extend_eq] at hb
    split at hb
    · exact .inr (hpairs b (Bindings.mem_of_mem_ofList hb) _ (Value.mem_captured.2 ⟨c, hc, hid⟩))
    · next hne => exact .inr (.captured (ih.resolve_left hne) hb hc hid)

/-! ### What a collection finds -/

theorem unreached_subset (s : Store) (rest pending : List FrameId) :
    s.unreached rest pending ⊆ rest := by
  fun_induction s.unreached rest pending with
  | case1 rest => exact List.Subset.refl rest
  | case2 rest id pending _ ih => exact List.Subset.trans ih List.erase_subset
  | case3 rest id pending _ ih => exact ih

/-- What is pending is come by. -/
theorem not_mem_unreached_of_pending (hrest : rest.Nodup) (hid : id ∈ pending) :
    id ∉ s.unreached rest pending := by
  fun_induction s.unreached rest pending with
  | case1 rest => cases hid
  | case2 rest first pending _ ih =>
    rcases List.mem_cons.1 hid with rfl | hid
    · exact fun h => hrest.not_mem_erase (s.unreached_subset _ _ h)
    · exact ih (hrest.erase first) (List.mem_append_right _ hid)
  | case3 rest first pending hfirst ih =>
    rcases List.mem_cons.1 hid with rfl | hid
    · exact fun h => hfirst (s.unreached_subset _ _ h)
    · exact ih hrest hid

/-- What a frame that is come by has captured is come by. -/
theorem not_mem_unreached_of_captured (hrest : rest.Nodup) (hid : id ∈ rest)
    (hfound : id ∉ s.unreached rest pending) (hid' : id' ∈ s.capturedIn id) :
    id' ∉ s.unreached rest pending := by
  fun_induction s.unreached rest pending with
  | case1 rest => exact absurd hid hfound
  | case2 rest first pending _ ih =>
    by_cases heq : id = first
    · subst heq
      exact not_mem_unreached_of_pending (hrest.erase id) (List.mem_append_left _ hid')
    · exact ih (hrest.erase first) ((List.mem_erase_of_ne heq).2 hid) hfound
  | case3 rest first pending _ ih => exact ih hrest hid hfound

/-- Only what can be reached is come by. -/
theorem reachable_of_not_mem_unreached (hpending : ∀ id ∈ pending, s.Reachable roots id)
    (hid : id ∈ rest) (hfound : id ∉ s.unreached rest pending) : s.Reachable roots id := by
  fun_induction s.unreached rest pending with
  | case1 rest => exact absurd hid hfound
  | case2 rest first pending _ ih =>
    have hfirst : s.Reachable roots first := hpending first List.mem_cons_self
    by_cases heq : id = first
    · exact heq ▸ hfirst
    · refine ih (fun other hother => ?_) ((List.mem_erase_of_ne heq).2 hid) hfound
      rcases List.mem_append.1 hother with hother | hother
      · exact hfirst.of_capturedIn hother
      · exact hpending other (List.mem_cons_of_mem first hother)
  | case3 rest first pending _ ih =>
    exact ih (fun other hother => hpending other (List.mem_cons_of_mem first hother)) hid hfound

/-- **What a collection finds.**  The garbage is what cannot be reached from the roots. -/
theorem mem_garbage_iff :
    id ∈ s.garbage roots ↔ id < s.frames.size ∧ ¬ s.Reachable roots id := by
  have hrange : ∀ {id}, id ∈ List.range s.frames.size ↔ id < s.frames.size := List.mem_range
  constructor
  · intro h
    refine ⟨hrange.1 (s.unreached_subset _ _ h), fun hreach => ?_⟩
    -- the frames that are come by are closed under what they have captured
    have hfound : id ∉ s.garbage roots := by
      clear h
      induction hreach with
      | root h => exact not_mem_unreached_of_pending List.nodup_range h
      | @captured id id' b c _ hb hc hid' ih =>
        have hlt : id < s.frames.size := by
          by_contra hle
          rw [frame_of_size_le s (Nat.le_of_not_lt hle)] at hb
          cases hb
        exact not_mem_unreached_of_captured List.nodup_range (hrange.2 hlt) ih
          (mem_capturedIn.2 ⟨b, hb, Value.mem_captured.2 ⟨c, hc, hid'⟩⟩)
    exact hfound h
  · rintro ⟨hlt, hreach⟩
    by_contra hfound
    exact hreach (reachable_of_not_mem_unreached (fun _ h => .root h) (hrange.2 hlt) hfound)

theorem frame_clearAll_of_mem {ids : List FrameId} (h : id ∈ ids) (s : Store) :
    (s.clearAll ids).frame id = [] := by
  induction ids generalizing s with
  | nil => cases h
  | cons other ids ih =>
    show ((s.clear ⟨other, []⟩).clearAll ids).frame id = []
    by_cases hid : id ∈ ids
    · exact ih hid _
    · obtain rfl := (List.mem_cons.1 h).resolve_right hid
      rw [frame_clearAll hid, frame_clear, if_pos rfl]

end Store

/-! ### States with and without the frames that were let go of -/

section

variable {held held' : List FrameId} {m m' : State} {env : Env} {x : String} {v : Value}
  {id : FrameId}

/-- A frame is in use if it can be reached from what is held or from the globals. -/
def InUse (held : List FrameId) (m : State) (id : FrameId) : Prop :=
  m.memory.store.Reachable (held ++ Env.globals.frames) id

theorem InUse.of_mem (h : id ∈ held) : InUse held m id := .root (List.mem_append_left _ h)

theorem InUse.of_held (h : InUse held' m id) (hheld : ∀ id ∈ held', InUse held m id) :
    InUse held m id := by
  refine Store.Reachable.of_roots h fun root hroot => ?_
  rcases List.mem_append.1 hroot with hroot | hroot
  · exact hheld root hroot
  · exact .root (List.mem_append_right _ hroot)

/-- A frame has been let go of: nothing is left in it, and it is not in use. -/
def LetGo (held : List FrameId) (m : State) (id : FrameId) : Prop :=
  m.memory.store.frame id = [] ∧ ¬ InUse held m id

/-- States that are the same in all frames that are in use in the second.  The other frames
of the first may be empty instead. -/
structure SameInUse (held : List FrameId) (m' m : State) : Prop where
  size : m'.memory.store.frames.size = m.memory.store.frames.size
  inUse : ∀ id, InUse held m id → m'.memory.store.frame id = m.memory.store.frame id
  others : ∀ id, m'.memory.store.frame id = m.memory.store.frame id ∨
    m'.memory.store.frame id = []
  labels : m'.memory.nextLabel = m.memory.nextLabel
  console : m'.console = m.console
  indent : m'.indent = m.indent

namespace SameInUse

theorem refl (held : List FrameId) (m : State) : SameInUse held m m :=
  ⟨rfl, fun _ _ => rfl, fun _ => .inl rfl, rfl, rfl, rfl⟩

/-- It is enough that what is held now was in use before. -/
theorem of_held (h : SameInUse held m' m) (hheld : ∀ id ∈ held', InUse held m id) :
    SameInUse held' m' m :=
  { h with inUse := fun id hid => h.inUse id (hid.of_held hheld) }

theorem of_subset (h : SameInUse held m' m) (hsub : held' ⊆ held) : SameInUse held' m' m :=
  h.of_held fun _ hid => .of_mem (hsub hid)

/-- What is in use in one state is in use in the other. -/
theorem inUse_iff (h : SameInUse held m' m) : InUse held m' id ↔ InUse held m id := by
  constructor
  · intro hid
    induction hid with
    | root hroot => exact .root hroot
    | @captured id _ b _ _ hb hc hid ih =>
      rcases h.others id with heq | heq
      · exact .captured ih (heq ▸ hb) hc hid
      · rw [heq] at hb
        cases hb
  · intro hid
    induction hid with
    | root hroot => exact .root hroot
    | captured hreach hb hc hid ih => exact .captured ih (h.inUse _ hreach ▸ hb) hc hid

/-- Every frame has the same contents in both states, or has been let go of in the first. -/
theorem eq_or_letGo (h : SameInUse held m' m) (id : FrameId) :
    m'.memory.store.frame id = m.memory.store.frame id ∨ LetGo held m' id := by
  by_cases hid : InUse held m id
  · exact .inl (h.inUse id hid)
  · exact (h.others id).imp_right fun hempty => ⟨hempty, fun huse => hid (h.inUse_iff.1 huse)⟩

/-- A name is found in the same frame in both states, with the same value. -/
theorem lookup (h : SameInUse held m' m) (henv : env.frames ⊆ held) (x : String) :
    m'.memory.store.get? env x = m.memory.store.get? env x ∧
      m'.memory.store.holder? env x = m.memory.store.holder? env x := by
  have hframes : ∀ id ∈ env.frames, m'.memory.store.frame id = m.memory.store.frame id :=
    fun id hid => h.inUse id (.of_mem (henv hid))
  exact ⟨Store.getIn_congr hframes x, Store.holderIn_congr hframes x⟩

/-- A value that is found may be held. -/
theorem of_get? (h : SameInUse held m' m) (henv : env.frames ⊆ held)
    (hv : m.memory.store.get? env x = some v) : SameInUse (v.captured ++ held) m' m := by
  obtain ⟨id, hid, hframe⟩ := Store.getIn_mem _ hv
  refine h.of_held fun id' hid' => ?_
  rcases List.mem_append.1 hid' with hid' | hid'
  · exact Store.Reachable.of_get? (.root (List.mem_append_left _ (henv hid))) hframe hid'
  · exact .of_mem hid'

/-- Bind a name of a frame in use to a value that is held. -/
theorem update (h : SameInUse held m' m) (hid : InUse held m id) (x : String)
    (hv : v.captured ⊆ held) :
    SameInUse held (m'.mapStore fun s => s.update id x v)
      (m.mapStore fun s => s.update id x v) where
  size := by
    simp only [State.mapStore, Store.size_update]
    exact h.size
  inUse other hother := by
    have hbefore : InUse held m other :=
      Store.reachable_of_update (fun id hid => InUse.of_mem (hv hid)) hother
    show (m'.memory.store.update id x v).frame other = (m.memory.store.update id x v).frame other
    rw [Store.frame_update_eq, Store.frame_update_eq, h.size, h.inUse id hid,
      h.inUse other hbefore]
  others other := by
    show (m'.memory.store.update id x v).frame other = (m.memory.store.update id x v).frame other ∨
      (m'.memory.store.update id x v).frame other = []
    rw [Store.frame_update_eq, Store.frame_update_eq, h.size, h.inUse id hid]
    split
    · exact .inl rfl
    · exact h.others other
  labels := h.labels
  console := h.console
  indent := h.indent

/-- A name that an environment finds may be bound to a value that is held. -/
theorem assign (h : SameInUse held m' m) (henv : env.frames ⊆ held) (x : String)
    (hv : v.captured ⊆ held) :
    SameInUse held (m'.mapStore fun s => (s.assign? env x v).getD s)
      (m.mapStore fun s => (s.assign? env x v).getD s) := by
  have hholder := (h.lookup henv x).2
  cases hid : m.memory.store.holder? env x with
  | none =>
    rw [hid] at hholder
    simpa only [State.mapStore, Store.assign?, hholder, hid, Option.getD_none] using h
  | some id =>
    rw [hid] at hholder
    have hmem : id ∈ held := henv (Store.holderIn_mem _ hid).1
    simpa only [State.mapStore, Store.assign?, hholder, hid, Option.getD_some] using
      h.update (.of_mem hmem) x hv

theorem assignAll (h : SameInUse held m' m) (henv : env.frames ⊆ held)
    (pairs : List (String × Value)) (hpairs : ∀ p ∈ pairs, p.2.captured ⊆ held) :
    SameInUse held (assignAll env pairs m') (Functional.assignAll env pairs m) := by
  induction pairs generalizing m m' with
  | nil => exact h
  | cons p pairs ih =>
    refine ih (h.assign henv p.1 (hpairs p List.mem_cons_self)) fun q hq => ?_
    exact hpairs q (List.mem_cons_of_mem p hq)

theorem setTraceCount (h : SameInUse held m' m) (henv : env.frames ⊆ held) (n : Number) :
    SameInUse held (State.setTraceCount env n m') (State.setTraceCount env n m) := by
  unfold State.setTraceCount
  rw [(h.lookup henv _).2]
  split
  · next id hid =>
    have hmem : id ∈ held := henv (Store.holderIn_mem _ hid).1
    exact h.update (.of_mem hmem) _ (List.nil_subset _)
  · exact h

/-- Make a frame with values that are held, and hold it too. -/
theorem extend (h : SameInUse held m' m) (henv : env.frames ⊆ held)
    {pairs : List (String × Value)} (hpairs : ∀ p ∈ pairs, p.2.captured ⊆ held) :
    SameInUse ((m.extend env pairs).1.frames ++ held) (m'.extend env pairs).2
      (m.extend env pairs).2 := by
  have hframe : ∀ id, (m'.memory.store.extend env pairs).2.frame id
      = if id = m.memory.store.frames.size then .ofList pairs else m'.memory.store.frame id := by
    intro id
    rw [Store.frame_extend_eq, h.size]
  refine ⟨?_, fun id hid => ?_, fun id => ?_, h.labels, h.console, h.indent⟩
  · simp only [State.extend, State.mapStore, Store.size_extend]
    exact congrArg (· + 1) h.size
  · have hbefore : id = m.memory.store.frames.size ∨ InUse held m id := by
      refine Store.reachable_of_extend env
        (fun p hp id hid => InUse.of_mem (hpairs p hp hid)) ?_ hid
      intro root hroot
      rcases List.mem_append.1 hroot with hroot | hroot
      · rcases List.mem_append.1 hroot with hroot | hroot
        · rcases List.mem_cons.1 hroot with hroot | hroot
          · exact .inl hroot
          · exact .inr (InUse.of_mem (henv hroot))
        · exact .inr (InUse.of_mem hroot)
      · exact .inr (.root (List.mem_append_right _ hroot))
    show (m'.memory.store.extend env pairs).2.frame id
      = (m.memory.store.extend env pairs).2.frame id
    rw [hframe, Store.frame_extend_eq]
    split
    · rfl
    · next hne => exact h.inUse id (hbefore.resolve_left hne)
  · show (m'.memory.store.extend env pairs).2.frame id
        = (m.memory.store.extend env pairs).2.frame id ∨
      (m'.memory.store.extend env pairs).2.frame id = []
    rw [hframe, Store.frame_extend_eq]
    split
    · exact .inl rfl
    · exact h.others id

theorem withConsole (h : SameInUse held m' m) (console : Console) :
    SameInUse held { m' with console := console } { m with console := console } :=
  ⟨h.size, h.inUse, h.others, h.labels, rfl, h.indent⟩

/-! ### Collections -/

variable {c : Collecting} {pairs : List (String × Value)}

/-- A collection lets go of nothing that is in use. -/
theorem collect (h : SameInUse held c.plain m) : SameInUse held (c.collect held).plain m := by
  let g := c.memory.collector
  let dead := g.tracked.filter (· ∈ c.store.garbage (held ++ Env.globals.frames ++ g.pins 0))
  have hlive : ∀ id, InUse held m id → id ∉ dead := by
    intro id hid hdead
    have hgarbage := Store.mem_garbage_iff.1 (of_decide_eq_true (List.mem_filter.1 hdead).2)
    exact hgarbage.2 (Store.Reachable.mono (h.inUse_iff.2 hid) (List.subset_append_left _ _))
  refine ⟨?_, fun id hid => ?_, fun id => ?_, h.labels, h.console, h.indent⟩
  · exact (Store.size_clearAll dead c.store).trans h.size
  · exact (Store.frame_clearAll (hlive id hid) c.store).trans (h.inUse id hid)
  · by_cases hdead : id ∈ dead
    · exact .inr (Store.frame_clearAll_of_mem hdead c.store)
    · exact (h.others id).imp (Store.frame_clearAll hdead c.store).trans
        (Store.frame_clearAll hdead c.store).trans

/-- Make a frame with values that are held.  They may be dropped at once, for the new frame
holds them itself. -/
theorem extendCollecting (h : SameInUse held c.plain m) (env : Env)
    (pairs : List (String × Value)) (henv : env.frames ⊆ held)
    (hpairs : ∀ p ∈ pairs, p.2.captured ⊆ held) (hsub : held' ⊆ held) :
    (c.extend held' env pairs).1 = (m.extend env pairs).1 ∧
      SameInUse ((m.extend env pairs).1.frames ++ (env.frames ++ held'))
        (c.extend held' env pairs).2.plain (m.extend env pairs).2 := by
  have hinner : (c.plain.extend env pairs).1 = (m.extend env pairs).1 :=
    congrArg (Env.mk · env.frames) h.size
  have hmade : SameInUse ((m.extend env pairs).1.frames ++ held') (c.plain.extend env pairs).2
      (m.extend env pairs).2 :=
    (h.extend henv hpairs).of_subset (append_subset_append (List.Subset.refl _) hsub)
  have hafter : SameInUse ((m.extend env pairs).1.frames ++ held')
      (c.extend held' env pairs).2.plain (m.extend env pairs).2 := by
    unfold Collecting.extend
    dsimp only
    split
    · rw [hinner]
      exact SameInUse.collect hmade
    · exact hmade
  -- the environment is part of the new one
  refine ⟨hinner, hafter.of_subset ?_⟩
  grind [State.extend, Env.frames]

end SameInUse

end

/-! ### Evaluations side by side -/

/-- The frames that the value of the last step keeps in use. -/
structure InHand where
  frames : List FrameId

instance : Preorder InHand where
  le _ _ := True
  le_refl _ := trivial
  le_trans _ _ _ _ _ := trivial

/-- A state with a collector and one without, while some frames are held besides what is at
hand. -/
def Mirrors (held : List FrameId) (w : InHand) (c : Collecting) (m : State) : Prop :=
  SameInUse (w.frames ++ held) c.plain m

/-- The same on both sides, and what it keeps in use is at hand. -/
def AtHand {α : Type} (frames : α → List FrameId) (w : InHand) (a b : α) : Prop :=
  a = b ∧ frames a ⊆ w.frames

/-- Evaluations that come to the same end, with the same in all frames that are in use while
some are held. -/
abbrev Alongside {α : Type} (frames : α → List FrameId) (held : List FrameId) :
    Outcome Collecting α → Outcome State α → Prop :=
  Match (Mirrors held) (AtHand frames) ⟨[]⟩

section

variable {α β : Type} {frames : α → List FrameId} {frames' : β → List FrameId}
  {held held' : List FrameId} {c : Collecting} {m : State} {env : Env}

theorem mirrors_sameOnBoth (held : List FrameId) : Trace.SameOnBoth (Mirrors held) where
  console h := h.console
  indent h := h.indent
  withDiag h diag _ :=
    ⟨h.size, h.inUse, h.others, h.labels,
      congrArg (fun console : Console => { console with diag := diag }) h.console, rfl⟩

namespace Alongside

theorem value {a : α} (h : SameInUse (frames a ++ held) c.plain m) :
    Alongside frames held (.value a c) (.value a m) :=
  Match.value (trivial : (⟨[]⟩ : InHand) ≤ ⟨frames a⟩) h ⟨rfl, List.Subset.refl _⟩

theorem fault {e : Error} (h : SameInUse held c.plain m) :
    Alongside frames held (.fault e c) (.fault e m) :=
  Match.fault (le_refl (⟨[]⟩ : InHand)) h

theorem of_subset {o : Outcome Collecting α} {o' : Outcome State α}
    (h : Alongside frames held o o') (hsub : held' ⊆ held) : Alongside frames held' o o' := by
  have hstate : ∀ {w c m}, Mirrors held w c m → Mirrors held' w c m :=
    fun hm => SameInUse.of_subset hm (append_subset_append (List.Subset.refl _) hsub)
  cases h with
  | value hw hm hv => exact Match.value hw (hstate hm) hv
  | fault hw hm => exact Match.fault hw (hstate hm)
  | unfinished hw hm => exact Match.unfinished hw (hstate hm)

/-- One step after another, where the value of the first is held until the second begins. -/
theorem andThen {o : Outcome Collecting α} {o' : Outcome State α}
    {f : α → Collecting → Outcome Collecting β} {g : α → State → Outcome State β}
    (h : Alongside frames held o o')
    (hfg : ∀ a c m, SameInUse (frames a ++ held) c.plain m →
      Alongside frames' held (f a c) (g a m)) :
    Alongside frames' held (o.andThen f) (o'.andThen g) := by
  refine Match.andThen h ?_
  rintro w - a _ c m hm ⟨rfl, ha⟩
  refine Match.of_le trivial (hfg a c m (SameInUse.of_subset hm ?_))
  exact append_subset_append ha (List.Subset.refl _)

end Alongside

/-- Two ways to evaluate, with a collector and without, that go together. -/
def Accompanies (sub : Evaluator) (sub' : Exp → Env → State → Outcome State Value) : Prop :=
  ∀ held e env c m, SameInUse (env.frames ++ held) c.plain m →
    Alongside Value.captured (env.frames ++ held) (sub held e env c) (sub' e env m)

/-! ### Evaluation -/

theorem captured_ofDatum (d : Datum) : (Value.ofDatum d).captured = [] := by
  have halike : Value.Alike True (fun _ _ _ => False) (.ofDatum d) (.ofDatum d) := .ofDatum d
  refine List.eq_nil_iff_forall_not_mem.2 fun id hid => ?_
  obtain ⟨_, hc, -⟩ := Value.mem_captured.1 hid
  obtain ⟨_, hfalse⟩ := halike.exists_of_mem_closures hc
  exact hfalse

/-- What a primitive returns captured nothing that its arguments did not. -/
theorem captured_run {p : Primitive} {args : List Value} {out out' : Channel} {v : Value}
    (h : p.run args out = .value v out') : v.captured ⊆ args.flatMap Value.captured := by
  have hargs : List.Forall₂
      (Value.Alike True fun _ env _ => env.frames ⊆ args.flatMap Value.captured) args args := by
    refine List.forall₂_same.2 fun arg harg => Value.Alike.of_closures trivial arg ?_
    intro closure hc id hid
    exact List.mem_flatMap.2 ⟨arg, harg, Value.mem_captured.2 ⟨closure, hc, hid⟩⟩
  have hrun := p.run_alike out hargs
  rw [h] at hrun
  cases hrun with
  | value _ _ hv =>
    intro id hid
    obtain ⟨_, hc, hid⟩ := Value.mem_captured.1 hid
    obtain ⟨_, henv⟩ := hv.exists_of_mem_closures hc
    exact henv hid

theorem SameInUse.withOut {m' : State} (h : SameInUse held m' m) (out : Channel) :
    SameInUse held (m'.withOut out) (m.withOut out) :=
  ⟨h.size, h.inUse, h.others, h.labels,
    congrArg (fun console : Console => { console with out := out }) h.console, h.indent⟩

theorem alongside_applyPrimitive (p : Primitive) {args : List Value} (call : Exp)
    (h : SameInUse held c.plain m) (hargs : args.flatMap Value.captured ⊆ held) :
    Alongside Value.captured held (c.directly (applyPrimitive p args call))
      (applyPrimitive p args call m) := by
  have hconsole : c.plain.console = m.console := h.console
  unfold Collecting.directly applyPrimitive
  rw [hconsole]
  cases hrun : p.run args m.console.out with
  | value v out =>
    have hv : v.captured ⊆ held := List.Subset.trans (captured_run hrun) hargs
    exact .value ((h.withOut out).of_subset (List.append_subset.2 ⟨hv, List.Subset.refl _⟩))
  | fault e out => exact .fault (h.withOut out)
  | unfinished out => exact .unfinished (le_refl (⟨[]⟩ : InHand)) (h.withOut out)

variable {sub : Evaluator} {sub' : Exp → Env → State → Outcome State Value}

theorem captured_subset_of_mem_zip {names : List String} {vs : List Value} {p : String × Value}
    (hp : p ∈ names.zip vs) : p.2.captured ⊆ vs.flatMap Value.captured := fun _ hid =>
  List.mem_flatMap.2 ⟨p.2, (List.of_mem_zip hp).2, hid⟩

/-- Calls of a function that is held, with arguments that are held. -/
theorem alongside_applyValue (hsub : Accompanies sub sub') (call callee : Exp) {f : Value}
    {args : List Value} (h : SameInUse held c.plain m) (hf : f.captured ⊆ held)
    (hargs : args.flatMap Value.captured ⊆ held) :
    Alongside Value.captured held (Collecting.applyValue sub held call callee f args c)
      (applyValue sub' call callee f args m) := by
  cases f with
  | closure lambda env =>
    simp only [Collecting.applyValue, applyValue]
    split
    · have henv : env.frames ⊆ held := by simpa [Value.captured, Value.closures] using hf
      have hpairs : ∀ p ∈ lambda.formals.zip args, p.2.captured ⊆ held := fun p hp =>
        List.Subset.trans (captured_subset_of_mem_zip hp) hargs
      obtain ⟨hinner, hmade⟩ := h.extendCollecting env _ henv hpairs (List.Subset.refl held)
      rw [hinner]
      refine (hsub held lambda.body _ _ _ (hmade.of_subset ?_)).of_subset ?_
      · grind
      · exact List.subset_append_right _ _
    · exact .fault h
  | primitive p => exact alongside_applyPrimitive p call h hargs
  | _ => exact .fault h

/-- Values that are held until all of them are there. -/
theorem alongside_evalEach {ι : Type} {f : List FrameId → ι → Collecting → Outcome Collecting Value}
    {g : ι → State → Outcome State Value} {base : List FrameId}
    (hfg : ∀ held a c m, SameInUse (base ++ held) c.plain m →
      Alongside Value.captured (base ++ held) (f held a c) (g a m))
    (as : List ι) (h : SameInUse (base ++ held) c.plain m) :
    Alongside (fun vs => vs.flatMap Value.captured) (base ++ held)
      (Collecting.evalEach f held as c) (evalEach g as m) := by
  induction as generalizing held c m with
  | nil => exact .value h
  | cons a as ih =>
    refine (hfg held a c m h).andThen fun v c₁ m₁ h₁ => ?_
    have hheld : SameInUse (base ++ (v.captured ++ held)) c₁.plain m₁ := h₁.of_subset (by grind)
    refine Alongside.of_subset ((ih hheld).andThen fun vs c₂ m₂ h₂ => ?_) (by grind)
    exact .value (h₂.of_subset (by grind))

/-- A part that is evaluated while a value is at hand. -/
theorem Accompanies.part (hsub : Accompanies sub sub') {hand : List FrameId} (e : Exp)
    (h : SameInUse (hand ++ (env.frames ++ held)) c.plain m) :
    Alongside Value.captured (env.frames ++ held) (sub held e env c) (sub' e env m) :=
  hsub held e env c m (h.of_subset (List.subset_append_right _ _))

/-- The frames of sequential bindings, each inside those before it. -/
theorem alongside_bindEach (hsub : Accompanies sub sub') (bindings : List (String × Exp))
    (h : SameInUse (env.frames ++ held) c.plain m) :
    Alongside Env.frames (env.frames ++ held) (Collecting.bindEach sub held bindings env c)
      (bindEach sub' bindings env m) := by
  induction bindings generalizing held env c m with
  | nil => exact .value (h.of_subset (by grind))
  | cons b bs ih =>
    refine (hsub held b.2 env c m h).andThen fun v c₁ m₁ h₁ => ?_
    have hv : ∀ p ∈ [(b.1, v)], p.2.captured ⊆ v.captured ++ (env.frames ++ held) := by simp
    obtain ⟨hinner, hmade⟩ :=
      h₁.extendCollecting env [(b.1, v)] (by grind) hv (show held ⊆ _ by grind)
    dsimp only
    rw [hinner]
    exact (ih hmade).of_subset (List.subset_append_right _ _)

/-- A call with what has been evaluated for it. -/
theorem alongside_call (hsub : Accompanies sub sub') (call callee : Exp) (f : Value)
    (vs : List Value)
    (h : SameInUse (vs.flatMap Value.captured ++ (env.frames ++ (f.captured ++ held))) c.plain m) :
    let holding := env.frames ++ (vs.flatMap Value.captured ++ (f.captured ++ held))
    Alongside Value.captured (env.frames ++ (f.captured ++ held))
      (Trace.around (State.traceCount? c.plain env) (Collecting.setTraceCount env)
        (fun _ => Trace.callText callee.text (vs.map Value.text)) Value.text
        (Collecting.applyValue sub holding call callee f vs) c)
      (Trace.around (m.traceCount? env) (State.setTraceCount env)
        (fun _ => Trace.callText callee.text (vs.map Value.text)) Value.text
        (applyValue sub' call callee f vs) m) := by
  intro holding
  have hholding : SameInUse holding c.plain m := h.of_subset (by grind)
  have hcount : State.traceCount? c.plain env = m.traceCount? env := by
    unfold State.traceCount?
    rw [(hholding.lookup (List.subset_append_left _ _) _).1]
  rw [hcount]
  refine Alongside.of_subset (?_ : Alongside Value.captured holding _ _) (by grind)
  refine Trace.match_around_same (mirrors_sameOnBoth holding)
    (fun _ _ _ hv => congrArg Value.text hv.1) hholding ?_ ?_
  · exact fun n _ _ hs => SameInUse.setTraceCount hs (List.subset_append_left _ _) n
  · intro c₁ m₁ h₁
    exact alongside_applyValue hsub call callee h₁ (by grind) (by grind)

/-- One level of evaluation, from the levels below. -/
theorem alongside_evalForm (l : Limits) {left : Nat} (hsub : Accompanies sub (eval l left))
    (e : Exp) (h : SameInUse (env.frames ++ held) c.plain m) :
    Alongside Value.captured (env.frames ++ held) (Collecting.evalForm l sub held e env c)
      (eval l (left + 1) e env m) := by
  have henv : ∀ {hand}, env.frames ⊆ hand ++ (env.frames ++ held) := by grind
  cases e with
  | literal d => exact .value (by rwa [captured_ofDatum])
  | var x =>
    have hget := (h.lookup (List.subset_append_left _ _) x).1
    simp only [Collecting.evalForm, eval, Collecting.store]
    rw [show c.memory.memory.store.get? env x = _ from hget]
    cases hv : m.memory.store.get? env x with
    | none => exact .fault h
    | some v => exact .value (h.of_get? (List.subset_append_left _ _) hv)
  | set x e =>
    refine (hsub held e env c m h).andThen fun v c₁ m₁ h₁ => ?_
    have hholder := (h₁.lookup henv x).2
    rw [show c₁.store.holder? env x = _ from hholder]
    cases hid : m₁.memory.store.holder? env x with
    | none => exact .fault (h₁.of_subset (List.subset_append_right _ _))
    | some id =>
      have hmem : id ∈ v.captured ++ (env.frames ++ held) := henv (Store.holderIn_mem _ hid).1
      exact .value (h₁.update (.of_mem hmem) x (List.subset_append_left _ _))
  | cond test yes no =>
    refine (hsub held test env c m h).andThen fun v c₁ m₁ h₁ => ?_
    split
    · exact hsub.part yes h₁
    · exact hsub.part no h₁
  | loop test body =>
    refine Match.evalWhile (fun w => ⟨rfl, List.nil_subset _⟩)
      (fun hv => congrArg Value.isTrue hv.1) l.turns h ?_ ?_
    · exact fun w _ c₁ m₁ h₁ => .of_le trivial (hsub.part test h₁)
    · exact fun w _ c₁ m₁ h₁ => .of_le trivial (hsub.part body h₁)
  | block parts =>
    refine Match.evalLast h ⟨rfl, List.nil_subset _⟩ ?_
    exact fun w _ e _ c₁ m₁ h₁ => .of_le trivial (hsub.part e h₁)
  | apply callee args =>
    refine (hsub held callee env c m h).andThen fun f c₁ m₁ h₁ => ?_
    have hheld : SameInUse (env.frames ++ (f.captured ++ held)) c₁.plain m₁ :=
      h₁.of_subset (by grind)
    refine Alongside.of_subset ?_ (show _ ⊆ env.frames ++ (f.captured ++ held) by grind)
    refine (alongside_evalEach (fun held e => hsub held e env) args hheld).andThen ?_
    exact fun vs c₂ m₂ h₂ => alongside_call hsub _ callee f vs h₂
  | lambda label formals body =>
    refine .value (h.of_subset ?_)
    simp [Value.captured, Value.closures]
  | bind kind bindings body =>
    cases kind with
    | plain =>
      refine (alongside_evalEach (fun held b => hsub held b.2 env) bindings h).andThen ?_
      intro vs c₁ m₁ h₁
      have hpairs : ∀ p ∈ (bindings.map (·.1)).zip vs,
          p.2.captured ⊆ vs.flatMap Value.captured ++ (env.frames ++ held) :=
        fun p hp => List.subset_append_of_subset_left _ (captured_subset_of_mem_zip hp)
      obtain ⟨hinner, hmade⟩ := h₁.extendCollecting env _ henv hpairs (show held ⊆ _ by grind)
      dsimp only
      rw [hinner]
      exact (hsub _ body _ _ _ hmade).of_subset (List.subset_append_right _ _)
    | sequential =>
      refine (alongside_bindEach hsub bindings h).andThen fun inner c₁ m₁ h₁ => ?_
      exact (hsub _ body inner c₁ m₁ h₁).of_subset (List.subset_append_right _ _)
    | recursive =>
      simp only [Collecting.evalForm, eval]
      cases nonLambda? bindings with
      | some e => exact .fault h
      | none =>
        have hpairs : ∀ p ∈ bindings.map fun b => (b.1, Value.unspecified),
            p.2.captured ⊆ env.frames ++ held := by
          intro p hp
          obtain ⟨b, -, rfl⟩ := List.mem_map.1 hp
          exact List.nil_subset _
        obtain ⟨hinner, hmade⟩ :=
          h.extendCollecting env _ (List.subset_append_left _ _) hpairs (show held ⊆ _ by grind)
        rw [hinner]
        have hvalues := alongside_evalEach (fun held b => hsub held b.2 _) bindings hmade
        refine Alongside.of_subset (hvalues.andThen fun vs c₁ m₁ h₁ => ?_)
          (List.subset_append_right _ _)
        refine hsub.part body (h₁.assignAll (by grind) _ fun p hp => ?_)
        exact List.subset_append_of_subset_left _ (captured_subset_of_mem_zip hp)

/-- **Evaluation does not notice the collector.**  Beside an evaluation that collects, one
that does not comes to the same end, with the same in every frame in use. -/
theorem alongside_eval (l : Limits) (left : Nat) :
    Accompanies (Collecting.eval l left) (eval l left) := by
  induction left with
  | zero => exact fun _ _ _ _ _ h => .fault h
  | succ left ih => exact fun _ e _ _ _ h => alongside_evalForm l ih e h

/-- What an evaluation comes to, while its value is held. -/
theorem Alongside.atEnd {o : Outcome Collecting Value} {o' : Outcome State Value}
    (h : Alongside Value.captured held o o') :
    capturedAtEnd o = capturedAtEnd o' ∧
      SameInUse (capturedAtEnd o ++ held) o.state.plain o'.state := by
  cases h with
  | value _ hm hv =>
    obtain ⟨rfl, hv⟩ := hv
    exact ⟨rfl, SameInUse.of_subset hm (append_subset_append hv (List.Subset.refl _))⟩
  | fault _ hm => exact ⟨rfl, SameInUse.of_subset hm (List.subset_append_right _ _)⟩
  | unfinished _ hm => exact ⟨rfl, SameInUse.of_subset hm (List.subset_append_right _ _)⟩

/-! ### Interpreters -/

theorem inUse_globals {id : FrameId} (hid : id ∈ Env.globals.frames) : InUse held m id :=
  .root (List.mem_append_right _ hid)

/-- The globals need not be held. -/
theorem SameInUse.globals {m' : State} (h : SameInUse held m' m) :
    SameInUse (Env.globals.frames ++ held) m' m := by
  refine h.of_held fun id hid => ?_
  rcases List.mem_append.1 hid with hid | hid
  · exact inUse_globals hid
  · exact .of_mem hid

theorem SameInUse.withLabels {m' : State} (h : SameInUse held m' m) (next : Nat) :
    SameInUse held (m'.withLabels next) (m.withLabels next) :=
  ⟨h.size, h.inUse, h.others, rfl, h.console, h.indent⟩

theorem alongside_evalGlobal (l : Limits) (e : Exp) (h : SameInUse held c.plain m) :
    Alongside Value.captured held (Collecting.evalGlobal l held e c) (evalGlobal l e m) := by
  have hlabels : c.plain.memory.nextLabel = m.memory.nextLabel := h.labels
  simp only [Collecting.evalGlobal, evalGlobal, evalIn, State.load]
  rw [hlabels]
  refine (alongside_eval l l.depth held _ .globals _ _ ?_).of_subset (List.subset_append_right _ _)
  exact h.globals.withLabels _

/-- A global name that is bound to a value that is held, and the line that is printed. -/
theorem alongside_bindAndEcho (echo : Echo) (name : String) {v : Value} (line : Unit → String)
    (h : SameInUse held c.plain m) (hv : v.captured ⊆ held) :
    Alongside Value.captured held (c.directly (bindAndEcho echo name v line))
      (bindAndEcho echo name v line m) := by
  have hheld : v.captured ++ held ⊆ held := List.append_subset.2 ⟨hv, List.Subset.refl _⟩
  have hbound : SameInUse held (c.plain.defineGlobal name v) (m.defineGlobal name v) :=
    h.update (inUse_globals List.mem_cons_self) name hv
  unfold Collecting.directly bindAndEcho
  cases echo with
  | off => exact .value (hbound.of_subset hheld)
  | on =>
    simp only [Machine.echo, Machine.printLine]
    rw [hbound.console]
    cases (m.defineGlobal name v).console.out.writeLine line with
    | value _ out => exact .value ((hbound.withOut out).of_subset hheld)
    | fault e out => exact .fault (hbound.withOut out)
    | unfinished out => exact .unfinished (le_refl (⟨[]⟩ : InHand)) (hbound.withOut out)

theorem alongside_define (l : Limits) (echo : Echo) (d : Definition Exp Lambda)
    (h : SameInUse held c.plain m) :
    Alongside Value.captured held (Collecting.define l echo held d c) (define l echo d m) := by
  have hbind : ∀ e name (line : Value → Unit → String),
      Alongside Value.captured held
        ((Collecting.evalGlobal l held e c).andThen fun v c =>
          c.directly (bindAndEcho echo name v (line v)))
        ((evalGlobal l e m).andThen fun v m => bindAndEcho echo name v (line v) m) := by
    intro e name line
    refine (alongside_evalGlobal l e h).andThen fun v c₁ m₁ h₁ => ?_
    exact (alongside_bindAndEcho echo name (line v) h₁ (List.subset_append_left _ _)).of_subset
      (List.subset_append_right _ _)
  cases d with
  | val name e => exact hbind e name fun v _ => echoText name v
  | exp e => exact hbind e itName fun v _ => v.text
  | function name f =>
    have hlabels : c.plain.memory.nextLabel = m.memory.nextLabel := h.labels
    simp only [Collecting.define, Collecting.directly, define, State.loadLambda]
    cases repeated? f.formals with
    | some formal => exact .fault h
    | none =>
      dsimp only
      rw [hlabels]
      refine Alongside.of_subset (?_ : Alongside Value.captured (Env.globals.frames ++ held) _ _)
        (List.subset_append_right _ _)
      have hloaded := h.globals.withLabels (f.labelled m.memory.nextLabel).2
      exact alongside_bindAndEcho (c := c.withPlain (c.plain.withLabels _)) echo name _ hloaded
        (by simp [Value.captured, Value.closures])

/-- The functional language with a collector. -/
def collectingTwin (g : Collector) : Twin Language.functional where
  Memory := Heap
  define := fun limits echo d c => (Collecting.define limits echo [] d c).map fun _ => ()
  eval := fun limits e c => Collecting.evalGlobal limits [] e c
  initial := ⟨.initial, g⟩
  view := Heap.memory

theorem Alongside.agree {o : Outcome Collecting α} {o' : Outcome State α}
    (h : Alongside frames [] o o') : Agree (fun c m => SameInUse [] c.plain m) Eq o o' :=
  h.forget (fun _ _ _ hm => SameInUse.of_subset hm (List.nil_subset _)) fun _ _ _ hv => hv.1

/-- Sessions with a collector follow those without. -/
theorem collectingTwin_follows (g : Collector) :
    (collectingTwin g).Follows fun c m => SameInUse [] (Collecting.plain c) m where
  console h := h.console
  withConsole h console := h.withConsole console
  resetTrace h := ⟨h.size, h.inUse, h.others, h.labels, h.console, rfl⟩
  define h _ := (Alongside.agree (alongside_define _ _ _ h)).map fun _ _ _ _ _ => rfl
  eval h _ _ := Alongside.agree (alongside_evalGlobal _ _ h)

/-- **The collector is not noticed.**  Whenever it collects, and whatever it pins, a session
with a collector runs the same forms as one without, comes to the same end, counts the same
and writes the same; and the globals, with all that can be reached from them, are the same
at the end. -/
theorem collected_sessions_agree (g : Collector) (console : Console) (limits : Limits)
    (settings : Settings) (disk : Disk) (texts : List (String × String)) :
    Agree (Session.Pair fun c m => SameInUse [] (Collecting.plain c) m) Eq
      (((collectingTwin g).session console limits settings).runTexts disk texts)
      ((Session.initial Language.functional console limits settings).runTexts disk texts) :=
  (collectingTwin_follows g).runTexts disk texts ⟨.refl [] _, rfl, rfl, rfl, rfl⟩

end

end Primer.Functional
