/-
Primer/Proofs/Functional/Closures.lean

What is said of all closures in sight.

A property of values that is about their closures only has nothing to do with what else
is in them: data have it, and what a primitive makes has it if its arguments do
(`Value.AllClosures`).  Where the values in some frames have a property, look-ups in these
frames find values that do, and values that have it may be assigned or put into new
frames (`Store.Keeping`, and `Store.Holding` if it is about closures).
-/
import Primer.Proofs.Functional.Untraced

namespace Primer.Functional

variable {C : Lambda → Env → Prop} {P : FrameId → Prop}

/-- The closures in a value are as `C` says. -/
def Value.AllClosures (C : Lambda → Env → Prop) (v : Value) : Prop :=
  ∀ c ∈ v.closures, C c.1 c.2

theorem Value.allClosures_iff_alike {v : Value} :
    v.AllClosures C ↔ v.Alike True (fun f env _ => C f env) v := by
  refine ⟨fun h => Value.Alike.of_closures trivial v h, fun h c hc => ?_⟩
  obtain ⟨_, hc⟩ := h.exists_of_mem_closures hc
  exact hc

theorem Value.allClosures_ofDatum (d : Datum) : (Value.ofDatum d).AllClosures C :=
  Value.allClosures_iff_alike.2 (.ofDatum d)

/-- What a primitive makes has no closures but those of its arguments. -/
theorem Primitive.allClosures_run {p : Primitive} {args : List Value} {out out' : Channel}
    {v : Value} (h : p.run args out = .value v out') (hargs : ∀ a ∈ args, a.AllClosures C) :
    v.AllClosures C := by
  have hself : List.Forall₂ (Value.Alike True fun f env _ => C f env) args args :=
    List.forall₂_same.2 fun a ha => Value.allClosures_iff_alike.1 (hargs a ha)
  have hrun := p.run_alike out hself
  rw [h] at hrun
  cases hrun with
  | value _ _ hv => exact Value.allClosures_iff_alike.2 hv

/-- The values in all frames within `P`, to which all frames to come belong, are as `V`
says. -/
structure Store.Keeping (P : FrameId → Prop) (V : Value → Prop) (s : Store) : Prop where
  later : ∀ id, s.frames.size ≤ id → P id
  values : ∀ id, P id → ∀ b ∈ s.frame id, V b.2

namespace Store.Keeping

variable {V : Value → Prop} {s : Store} {env : Env}

theorem get? (hs : s.Keeping P V) (henv : ∀ id ∈ env.frames, P id) {x : String} {v : Value}
    (h : s.get? env x = some v) : V v := by
  obtain ⟨id, hid, hv⟩ := Store.getIn_mem _ h
  exact hs.values id (henv id hid) _ (Bindings.mem_of_get? hv)

theorem update (hs : s.Keeping P V) (id : FrameId) (x : String) {v : Value} (hv : V v) :
    (s.update id x v).Keeping P V where
  later id' hid' := hs.later id' (by rwa [Store.size_update] at hid')
  values id' hid' b hb := by
    rw [Store.frame_update_eq] at hb
    split at hb
    · next h =>
      rcases Bindings.mem_set hb with hb | rfl
      · exact hs.values id (h.1 ▸ hid') b hb
      · exact hv
    · exact hs.values id' hid' b hb

theorem extend (hs : s.Keeping P V) (env : Env) {pairs : List (String × Value)}
    (hpairs : ∀ b ∈ pairs, V b.2) : (s.extend env pairs).2.Keeping P V where
  later id hid := by
    rw [Store.size_extend] at hid
    exact hs.later id (Nat.le_of_succ_le hid)
  values id hid b hb := by
    rw [Store.frame_extend_eq] at hb
    split at hb
    · exact hpairs b (Bindings.mem_of_mem_ofList hb)
    · exact hs.values id hid b hb

/-- A new frame is one of those to come. -/
theorem inside {m : State} (hm : m.memory.store.Keeping P V) (henv : ∀ id ∈ env.frames, P id) :
    ∀ id ∈ (m.inside env).frames, P id :=
  List.forall_mem_cons.2 ⟨hm.later _ (Nat.le_refl _), henv⟩

end Store.Keeping

/-- The closures in all frames within `P`, to which all frames to come belong, are as `C`
says. -/
abbrev Store.Holding (P : FrameId → Prop) (C : Lambda → Env → Prop) : Store → Prop :=
  Store.Keeping P (Value.AllClosures C)

/-- The closures that an evaluation can reach.  The environment of each is within reach
too, and a frame that does not exist yet has no closures. -/
theorem holding_within {m : State} {env : Env}
    (h : ∀ id, m.memory.store.Reachable env.frames id → ∀ b ∈ m.memory.store.frame id,
      ∀ c ∈ b.2.closures, (∀ id' ∈ c.2.frames, Within m env id') → C c.1 c.2) :
    m.memory.store.Holding (Within m env) C where
  later _ hid := .inr hid
  values id hid b hb c hc := by
    rcases hid with hid | hid
    · exact h id hid b hb c hc fun id' hid' => .inl (.captured hid hb hc hid')
    · rw [Store.frame_of_size_le _ hid] at hb
      cases hb

end Primer.Functional
