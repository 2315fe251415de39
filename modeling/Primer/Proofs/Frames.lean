/-
Primer/Proofs/Frames.lean

Frames and their names.

Two lists of bindings are `Paired` if they bind the same names in the same
order to values that are related name by name.  Whatever binds or looks up one
name does so on both sides alike, so every operation keeps pairs paired; what
relates the values of a name is up to the use.

A new frame whose names are all different holds each value under its own name
(`bindsEach_ofList`).

The second part says what a recursive binding comes to: a new frame whose names
are first bound to placeholders and then to their values is the frame that has
the values from the start (`assignAll_extend`).
-/
import Mathlib.Data.List.Forall2
import Primer.Functional.Eval

namespace Primer

/-- Related optional values are both absent or both present. -/
theorem none_or_some_of_rel {α β : Type} {R : α → β → Prop} {o : Option α} {o' : Option β}
    (h : Option.Rel R o o') :
    o = none ∧ o' = none ∨ ∃ a b, o = some a ∧ o' = some b ∧ R a b := by
  cases h with
  | none => exact .inl ⟨rfl, rfl⟩
  | some hab => exact .inr ⟨_, _, rfl, rfl, hab⟩

namespace Bindings

variable {α β : Type}

/-- Bind one name after the other. -/
def setAll (ps : List (String × α)) (bs : Bindings α) : Bindings α :=
  ps.foldl (fun bs (x, a) => bs.set x a) bs

theorem setAll_nil (bs : Bindings α) : setAll [] bs = bs := rfl

theorem setAll_cons (p : String × α) (ps : List (String × α)) (bs : Bindings α) :
    setAll (p :: ps) bs = setAll ps (bs.set p.1 p.2) := rfl

theorem ofList_eq_setAll (ps : List (String × α)) : ofList ps = setAll ps [] := rfl

/-- The same names in the same order, with values related by `Q`. -/
def Paired (Q : String → α → β → Prop) (bs : Bindings α) (bs' : Bindings β) : Prop :=
  List.Forall₂ (fun b b' => b.1 = b'.1 ∧ Q b.1 b.2 b'.2) bs bs'

namespace Paired

variable {Q Q' : String → α → β → Prop} {bs : Bindings α} {bs' : Bindings β}

theorem imp (hQ : ∀ x a b, Q x a b → Q' x a b) (h : Paired Q bs bs') : Paired Q' bs bs' :=
  List.Forall₂.imp (fun _ _ hb => ⟨hb.1, hQ _ _ _ hb.2⟩) h

theorem refl {Q : String → α → α → Prop} {bs : Bindings α} (h : ∀ b ∈ bs, Q b.1 b.2 b.2) :
    Paired Q bs bs :=
  List.forall₂_same.2 fun b hb => ⟨rfl, h b hb⟩

theorem names_eq (h : Paired Q bs bs') : bs.names = bs'.names := by
  induction h with
  | nil => rfl
  | cons hb _ ih => exact congrArg₂ List.cons hb.1 ih

/-- A name is bound on both sides, to related values, or on neither. -/
theorem get? (h : Paired Q bs bs') (x : String) :
    Option.Rel (Q x) (bs.get? x) (bs'.get? x) := by
  induction h with
  | nil => exact .none
  | @cons b b' _ _ hb _ ih =>
    obtain ⟨y, a⟩ := b
    obtain ⟨y', a'⟩ := b'
    obtain ⟨rfl, hq⟩ := hb
    simp only [Bindings.get?]
    split
    · next hy => exact .some (hy ▸ hq)
    · exact ih

theorem set (h : Paired Q bs bs') {x : String} {a : α} {a' : β} (hq : Q x a a') :
    Paired Q (bs.set x a) (bs'.set x a') := by
  induction h with
  | nil => exact .cons ⟨rfl, hq⟩ .nil
  | @cons b b' _ _ hb htail ih =>
    obtain ⟨y, c⟩ := b
    obtain ⟨y', c'⟩ := b'
    obtain ⟨rfl, hc⟩ := hb
    simp only [Bindings.set]
    split
    · next hy => exact .cons ⟨rfl, hy ▸ hq⟩ htail
    · exact .cons ⟨rfl, hc⟩ ih

theorem setAll {ps : List (String × α)} {ps' : List (String × β)} (hp : Paired Q ps ps')
    (h : Paired Q bs bs') : Paired Q (Bindings.setAll ps bs) (Bindings.setAll ps' bs') := by
  induction hp generalizing bs bs' with
  | nil => exact h
  | @cons p p' _ _ hp _ ih =>
    obtain ⟨x, a⟩ := p
    obtain ⟨x', a'⟩ := p'
    obtain ⟨rfl, hq⟩ := hp
    exact ih (h.set hq)

theorem ofList {ps : List (String × α)} {ps' : List (String × β)} (hp : Paired Q ps ps') :
    Paired Q (Bindings.ofList ps) (Bindings.ofList ps') := hp.setAll .nil

/-- Related values under given names. -/
theorem zip {R : α → β → Prop} {vs : List α} {vs' : List β} (h : List.Forall₂ R vs vs')
    (names : List String) :
    Paired (fun x a b => x ∈ names ∧ R a b) (names.zip vs) (names.zip vs') := by
  induction names generalizing vs vs' with
  | nil => exact .nil
  | cons x xs ih =>
    cases h with
    | nil => exact .nil
    | cons hv hvs =>
      have htail : Paired (fun y a b => y ∈ x :: xs ∧ R a b) (xs.zip _) (xs.zip _) :=
        (ih hvs).imp fun y a b hy => ⟨List.mem_cons_of_mem x hy.1, hy.2⟩
      exact .cons ⟨rfl, List.mem_cons_self, hv⟩ htail

end Paired

/-! ### What is bound -/

theorem mem_of_get? {x : String} {a : α} {bs : Bindings α} (h : bs.get? x = some a) :
    (x, a) ∈ bs := by
  induction bs with
  | nil => cases h
  | cons b bs ih =>
    rw [get?] at h
    split at h
    · next hx =>
      obtain rfl : b.2 = a := Option.some.inj h
      exact hx ▸ List.mem_cons_self
    · exact List.mem_cons_of_mem b (ih h)

theorem mem_set {bs : Bindings α} {x : String} {a : α} {b : String × α} (h : b ∈ bs.set x a) :
    b ∈ bs ∨ b = (x, a) := by
  induction bs with
  | nil => exact .inr (List.mem_singleton.1 h)
  | cons c bs ih =>
    rw [set] at h
    split at h
    · next hx =>
      rcases List.mem_cons.1 h with rfl | h
      · exact .inr (by rw [hx])
      · exact .inl (List.mem_cons_of_mem c h)
    · rcases List.mem_cons.1 h with rfl | h
      · exact .inl List.mem_cons_self
      · exact (ih h).imp_left (List.mem_cons_of_mem c)

theorem mem_setAll {ps : List (String × α)} {bs : Bindings α} {b : String × α}
    (h : b ∈ setAll ps bs) : b ∈ bs ∨ b ∈ ps := by
  induction ps generalizing bs with
  | nil => exact .inl h
  | cons p ps ih =>
    rcases ih h with h | h
    · exact (mem_set h).imp_right fun hb => by rw [hb]; exact List.mem_cons_self
    · exact .inr (List.mem_cons_of_mem p h)

/-- A new frame holds nothing but what it was made with. -/
theorem mem_of_mem_ofList {ps : List (String × α)} {b : String × α} (h : b ∈ ofList ps) :
    b ∈ ps :=
  (mem_setAll h).resolve_left (List.not_mem_nil)

/-! ### The names of a new frame -/

theorem mem_names_iff {x : String} {bs : Bindings α} : x ∈ bs.names ↔ bs.has x = true := by
  simp [names, has]

theorem has_eq_false_iff {x : String} {bs : Bindings α} : bs.has x = false ↔ bs.get? x = none := by
  rw [has_eq_isSome, Option.isSome_eq_false_iff, Option.isNone_iff_eq_none]

theorem has_eq_true_iff {x : String} {bs : Bindings α} :
    bs.has x = true ↔ ∃ a, bs.get? x = some a := by
  rw [has_eq_isSome, Option.isSome_iff_exists]

theorem has_set (x y : String) (a : α) (bs : Bindings α) :
    (bs.set x a).has y = (decide (x = y) || bs.has y) := by
  by_cases h : x = y
  · subst h
    simp [has_eq_isSome]
  · simp [has_eq_isSome, get?_set_ne h, h]

theorem has_setAll (ps : List (String × α)) (bs : Bindings α) (y : String) :
    (setAll ps bs).has y = (bs.has y || (ps.map (·.1)).contains y) := by
  induction ps generalizing bs with
  | nil => simp [setAll]
  | cons p ps ih =>
    rw [setAll_cons, ih, has_set]
    by_cases h : p.1 = y
    · simp [h]
    · have hy : (y == p.1) = false := beq_false_of_ne (Ne.symm h)
      simp [h, hy]

/-- A new frame binds the names it was made with. -/
theorem has_ofList (ps : List (String × α)) (y : String) :
    (ofList ps).has y = (ps.map (·.1)).contains y := by
  simpa [ofList_eq_setAll, has] using has_setAll ps [] y

theorem nodup_names_setAll (ps : List (String × α)) {bs : Bindings α} (h : bs.names.Nodup) :
    (setAll ps bs).names.Nodup := by
  induction ps generalizing bs with
  | nil => exact h
  | cons p ps ih =>
    refine ih ?_
    show (bs.set p.1 p.2).names.Nodup
    rw [names_set]
    split
    · exact h
    · next hp =>
      rw [← mem_names_iff] at hp
      refine List.nodup_append.2 ⟨h, by simp, fun x hx y hy => ?_⟩
      obtain rfl : y = p.1 := by simpa using hy
      exact fun hxy => hp (hxy ▸ hx)

/-- Binding names that are bound already adds none. -/
theorem names_setAll_of_has {ps : List (String × α)} {bs : Bindings α}
    (h : ∀ x ∈ ps.map (·.1), bs.has x = true) : (setAll ps bs).names = bs.names := by
  induction ps generalizing bs with
  | nil => rfl
  | cons p ps ih =>
    have hp : bs.has p.1 = true := h p.1 (by simp)
    have hset : (bs.set p.1 p.2).names = bs.names := by rw [names_set, if_pos hp]
    rw [setAll_cons, ih, hset]
    intro x hx
    rw [has_set, h x (List.mem_cons_of_mem _ hx), Bool.or_true]

/-- The last value given to a name counts, whatever it was bound to before. -/
theorem get?_setAll_congr (ps : List (String × α)) {bs bs' : Bindings α} {x : String}
    (h : x ∈ ps.map (·.1) ∨ bs.get? x = bs'.get? x) :
    (setAll ps bs).get? x = (setAll ps bs').get? x := by
  induction ps generalizing bs bs' with
  | nil => simpa [setAll_nil] using h
  | cons p ps ih =>
    rw [setAll_cons, setAll_cons]
    refine ih ?_
    by_cases hp : p.1 = x
    · right
      rw [hp, get?_set_self, get?_set_self]
    · rw [get?_set_ne hp, get?_set_ne hp]
      refine h.imp (fun hx => ?_) id
      simpa [Ne.symm hp] using hx

/-- Bindings with distinct names are determined by their names and look-up. -/
theorem ext_of_names {bs bs' : Bindings α} (hnames : bs.names = bs'.names)
    (hnodup : bs.names.Nodup) (hget : ∀ x ∈ bs.names, bs.get? x = bs'.get? x) : bs = bs' := by
  induction bs generalizing bs' with
  | nil =>
    cases bs' with
    | nil => rfl
    | cons b' bs' => cases hnames
  | cons b bs ih =>
    cases bs' with
    | nil => cases hnames
    | cons b' bs' =>
      obtain ⟨x, a⟩ := b
      obtain ⟨x', a'⟩ := b'
      obtain ⟨rfl, htail⟩ : x = x' ∧ names bs = names bs' := by simpa [names] using hnames
      obtain ⟨hx, hnodup⟩ : x ∉ names bs ∧ (names bs).Nodup := by simpa [names] using hnodup
      have ha : a = a' := by simpa [get?] using hget x (by simp [names])
      subst ha
      refine congrArg _ (ih htail hnodup fun y hy => ?_)
      have hxy : x ≠ y := fun h => hx (h ▸ hy)
      have hy' := hget y (List.mem_cons_of_mem x hy)
      simpa [get?, hxy] using hy'

/-- To bind names and then bind the same names again is to bind them once. -/
theorem setAll_ofList {ps qs : List (String × α)} (h : ps.map (·.1) = qs.map (·.1)) :
    setAll qs (ofList ps) = ofList qs := by
  have hbound : ∀ x ∈ qs.map (·.1), (ofList ps).has x = true := by
    intro x hx
    rw [has_ofList, h]
    simpa using hx
  have hnames : (ofList ps).names = (ofList qs).names := by
    have hpq : Paired (fun _ _ _ => True) ps qs := by
      refine List.forall₂_iff_get.2 ⟨by simpa using congrArg List.length h, fun i hi hi' => ?_⟩
      refine ⟨?_, trivial⟩
      have := congrArg (·[i]?) h
      simpa [hi, hi'] using this
    exact hpq.ofList.names_eq
  refine ext_of_names ?_ ?_ ?_
  · rw [names_setAll_of_has hbound, hnames]
  · exact nodup_names_setAll qs (nodup_names_setAll ps List.nodup_nil)
  · intro x hx
    rw [names_setAll_of_has hbound, mem_names_iff, has_ofList, h] at hx
    exact get?_setAll_congr qs (.inl (by simpa using hx))

/-! ### Distinct names -/

theorem set_of_not_has {x : String} {bs : Bindings α} (h : bs.has x = false) (a : α) :
    bs.set x a = bs ++ [(x, a)] := by
  induction bs with
  | nil => rfl
  | cons b bs ih =>
    obtain ⟨hb, hbs⟩ : b.1 ≠ x ∧ has x bs = false := by simpa [has] using h
    rw [set, if_neg hb, ih hbs, List.cons_append]

/-- Names that are all different are bound one after the other. -/
theorem setAll_of_nodup {ps : List (String × α)} {bs : Bindings α}
    (h : (bs.names ++ ps.map (·.1)).Nodup) : setAll ps bs = bs ++ ps := by
  induction ps generalizing bs with
  | nil => rw [setAll_nil, List.append_nil]
  | cons p ps ih =>
    have hp : bs.has p.1 = false := by
      rw [Bool.eq_false_iff, Ne, ← mem_names_iff]
      intro hmem
      exact (List.nodup_append.1 h).2.2 p.1 hmem p.1 List.mem_cons_self rfl
    have hset : bs.set p.1 p.2 = bs ++ [p] := set_of_not_has hp p.2
    rw [setAll_cons, hset, ih, List.append_assoc, List.singleton_append]
    have hnames : names (bs ++ [p]) = bs.names ++ [p.1] := by simp [names]
    rw [hnames, List.append_assoc, List.singleton_append]
    exact h

/-- Bindings that hold each of some values under its own name. -/
structure BindsEach (names : List String) (vs : List α) (bs : Bindings α) : Prop where
  distinct : names.Nodup
  /-- there is one place for each name -/
  places : bs.names = names
  length : vs.length = names.length
  values : ∀ (i : Nat) (x : String) (v : α), names[i]? = some x → vs[i]? = some v →
    bs.get? x = some v

theorem get?_zip {names : List String} (h : names.Nodup) {vs : List α} {i : Nat} {x : String}
    {v : α} (hx : names[i]? = some x) (hv : vs[i]? = some v) :
    get? x (names.zip vs) = some v := by
  induction names generalizing vs i with
  | nil => cases hx
  | cons y ys ih =>
    obtain ⟨hy, hys⟩ := List.nodup_cons.1 h
    cases vs with
    | nil => cases hv
    | cons u us =>
      cases i with
      | zero =>
        obtain rfl : y = x := Option.some.inj hx
        rw [List.zip_cons_cons, get?, if_pos rfl]
        exact hv
      | succ i =>
        have hne : y ≠ x := fun heq => hy (heq ▸ List.mem_of_getElem? hx)
        rw [List.zip_cons_cons, get?, if_neg hne]
        exact ih hys hx hv

/-- Names that are all different lose no value. -/
theorem bindsEach_ofList {names : List String} (h : names.Nodup) {vs : List α}
    (hlen : vs.length = names.length) : BindsEach names vs (ofList (names.zip vs)) := by
  have hfst : (names.zip vs).map (·.1) = names := List.map_fst_zip (Nat.le_of_eq hlen.symm)
  have hlist : ofList (names.zip vs) = names.zip vs := by
    rw [ofList_eq_setAll, setAll_of_nodup, List.nil_append]
    simpa [Bindings.names, hfst] using h
  rw [hlist]
  exact ⟨h, hfst, hlen, fun i x v hx hv => get?_zip h hx hv⟩

end Bindings

/-! ### New frames in a store -/

namespace Functional

namespace Store

variable (s : Store) (env : Env) (pairs : List (String × Value))

@[simp] theorem size_update (id : FrameId) (x : String) (v : Value) :
    (s.update id x v).frames.size = s.frames.size := by
  simp [update]

@[simp] theorem size_extend : (s.extend env pairs).2.frames.size = s.frames.size + 1 := by
  simp [extend]

/-- A frame of which there is none is empty. -/
theorem frame_of_size_le {id : FrameId} (h : s.frames.size ≤ id) : s.frame id = [] := by
  simp [frame, Array.getD_eq_getD_getElem?, h]

theorem frame_extend_size : (s.extend env pairs).2.frame s.frames.size = .ofList pairs :=
  s.frame_extend_inner env pairs

/-- A new frame is where the store ended, and the others are as before. -/
theorem frame_extend_eq (id : FrameId) :
    (s.extend env pairs).2.frame id
      = if id = s.frames.size then .ofList pairs else s.frame id := by
  split
  · next h => rw [h, frame_extend_size]
  · next h =>
    rcases Nat.lt_or_gt_of_ne h with h | h
    · exact frame_extend h env pairs
    · have hle : (s.extend env pairs).2.frames.size ≤ id := by
        rw [size_extend]
        omega
      rw [frame_of_size_le _ hle, frame_of_size_le _ (Nat.le_of_lt h)]

/-- Binding a name in one frame, seen from any frame. -/
theorem frame_update_eq (id other : FrameId) (x : String) (v : Value) :
    (s.update id x v).frame other
      = if other = id ∧ id < s.frames.size then (s.frame id).set x v else s.frame other := by
  by_cases h : other = id
  · subst h
    by_cases hlt : other < s.frames.size
    · simp [hlt, frame_update_self hlt]
    · have hle : s.frames.size ≤ other := Nat.le_of_not_lt hlt
      have hle' : (s.update other x v).frames.size ≤ other := by rwa [size_update]
      rw [if_neg fun h => hlt h.2, frame_of_size_le _ hle', frame_of_size_le _ hle]
  · simp [h, frame_update_ne h]

@[simp] theorem size_clear : (s.clear env).frames.size = s.frames.size := by
  simp [clear]

/-- Unbinding the names of one frame, seen from any frame. -/
theorem frame_clear (id : FrameId) :
    (s.clear env).frame id = if id = env.inner then [] else s.frame id := by
  unfold clear frame
  rw [Array.getD_eq_getD_getElem?, Array.getElem?_modify, Array.getD_eq_getD_getElem?]
  by_cases h : id = env.inner
  · subst h
    rw [if_pos rfl, if_pos rfl]
    cases s.frames[env.inner]? <;> rfl
  · rw [if_neg (Ne.symm h), if_neg h]

/-- Binding a name in the frame that was just made. -/
theorem update_extend (x : String) (v : Value) (frame : Frame) :
    (Store.mk (s.frames.push frame)).update s.frames.size x v
      = ⟨s.frames.push (frame.set x v)⟩ := by
  simp only [update, Store.mk.injEq]
  refine Array.ext_getElem? fun i => ?_
  rw [Array.getElem?_modify, Array.getElem?_push, Array.getElem?_push]
  by_cases h : i = s.frames.size
  · simp [h]
  · simp [h, Ne.symm h]

/-- A name that is held is held by one of the frames. -/
theorem holderIn_mem {name : String} {ids : List FrameId} {id : FrameId}
    (h : s.holderIn name ids = some id) : id ∈ ids ∧ (s.frame id).has name = true := by
  induction ids with
  | nil => cases h
  | cons i ids ih =>
    simp only [holderIn] at h
    split at h
    · next hi =>
      cases h
      exact ⟨by simp, hi⟩
    · exact ⟨List.mem_cons_of_mem i (ih h).1, (ih h).2⟩

/-- Look-up does not depend on frames that are not looked into. -/
theorem getIn_congr {s s' : Store} {ids : List FrameId}
    (h : ∀ id ∈ ids, s.frame id = s'.frame id) (x : String) :
    s.getIn x ids = s'.getIn x ids := by
  induction ids with
  | nil => rfl
  | cons id ids ih =>
    have htail := ih fun i hi => h i (List.mem_cons_of_mem id hi)
    simp only [getIn, h id List.mem_cons_self, htail]

theorem holderIn_congr {s s' : Store} {ids : List FrameId}
    (h : ∀ id ∈ ids, s.frame id = s'.frame id) (x : String) :
    s.holderIn x ids = s'.holderIn x ids := by
  induction ids with
  | nil => rfl
  | cons id ids ih =>
    have htail := ih fun i hi => h i (List.mem_cons_of_mem id hi)
    simp only [holderIn, h id List.mem_cons_self, htail]

end Store

/-- A name that the innermost frame has is assigned to there. -/
theorem Store.assign?_of_has {s : Store} {env : Env} {x : String}
    (h : (s.frame env.inner).has x = true) (v : Value) :
    s.assign? env x v = some (s.update env.inner x v) := by
  have hholder : s.holder? env x = some env.inner := by
    rw [holder?, Env.frames, holderIn, if_pos h]
  rw [assign?, hholder]

/-- To assign to a name updates the frame that has it, or nothing if none has it. -/
theorem Store.getD_assign? (s : Store) (env : Env) (x : String) (v : Value) :
    (s.assign? env x v).getD s = s ∨
      ∃ id, s.holder? env x = some id ∧ (s.assign? env x v).getD s = s.update id x v := by
  unfold Store.assign?
  cases h : s.holder? env x with
  | none => exact .inl rfl
  | some id => exact .inr ⟨id, rfl, rfl⟩

/-- Names that are bound to placeholders in a new frame and then given their values
might as well have had them from the start. -/
theorem assignAll_extend (m : State) (env : Env) {ps qs : List (String × Value)}
    (h : ps.map (·.1) = qs.map (·.1)) :
    assignAll (m.extend env ps).1 qs (m.extend env ps).2 = (m.extend env qs).2 := by
  have hfold : ∀ (qs : List (String × Value)) (frame : Frame),
      (∀ q ∈ qs, frame.has q.1 = true) →
      assignAll (m.extend env ps).1 qs
          (m.mapStore fun s => ⟨s.frames.push frame⟩)
        = m.mapStore fun s => ⟨s.frames.push (Bindings.setAll qs frame)⟩ := by
    intro qs
    induction qs with
    | nil => exact fun _ _ => rfl
    | cons q qs ih =>
      intro frame hhas
      -- the look-up ends in the new frame, which has the name
      have hfound : ((Store.mk (m.memory.store.frames.push frame)).frame
          (m.extend env ps).1.inner).has q.1 = true := by
        rw [show (Store.mk (m.memory.store.frames.push frame)).frame (m.extend env ps).1.inner
          = frame by simp [Store.frame, State.extend, Array.getD_eq_getD_getElem?]]
        exact hhas q List.mem_cons_self
      have hstep : (Store.mk (m.memory.store.frames.push frame)).update
          m.memory.store.frames.size q.1 q.2
          = ⟨m.memory.store.frames.push (frame.set q.1 q.2)⟩ := Store.update_extend _ _ _ _
      have hnext : ∀ q' ∈ qs, (frame.set q.1 q.2).has q'.1 = true := by
        intro q' hq'
        rw [Bindings.has_set, hhas q' (List.mem_cons_of_mem q hq'), Bool.or_true]
      rw [Bindings.setAll_cons, ← ih _ hnext, assignAll, List.foldl_cons]
      congr 1
      simp only [State.mapStore, Store.assign?_of_has hfound, Option.getD_some]
      rw [show (m.extend env ps).1.inner = m.memory.store.frames.size from rfl, hstep]
  have hnames : ∀ q ∈ qs, (Bindings.ofList ps).has q.1 = true := by
    intro q hq
    rw [Bindings.has_ofList, h]
    simpa using ⟨q.2, hq⟩
  have hlast := hfold qs (.ofList ps) hnames
  rw [Bindings.setAll_ofList h] at hlast
  exact hlast

end Functional

end Primer
