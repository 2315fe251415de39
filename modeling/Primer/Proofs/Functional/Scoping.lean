/-
Primer/Proofs/Functional/Scoping.lean

Lexical scoping: bindings that an expression does not mention cannot influence
its evaluation.

An expression is evaluated in an environment, and once more inside a new frame
of that environment.  The new frame gets the number `n` that in the first
evaluation the next frame gets, so from there on each frame has its number
raised by one (`shift`).  The two stores agree frame by frame up to that, and
the new frame stays as it was made (`Aligned`).

The closures of the two evaluations do not capture the same frames: those of
the second one may have the new frame among theirs.  What they share is where
names are found.  Which names a frame binds never changes after it was made,
so a `Layout` of the frames, which grows as frames are made, tells where a name
is found; and the name of a new frame's binding may well occur in a closure,
provided that a frame further inside binds it too (`SameHolder`).
-/
import Primer.Proofs.DepthLimit
import Primer.Proofs.Functional.Names
import Primer.Proofs.Functional.Simulation

namespace Primer.Functional

open Outcome

/-! ### Layouts -/

/-- The frame that goes with a frame when one is made at `n`. -/
def shift (n id : Nat) : Nat := if id < n then id else id + 1

theorem shift_of_lt {n id : Nat} (h : id < n) : shift n id = id := if_pos h

theorem shift_of_le {n id : Nat} (h : n ≤ id) : shift n id = id + 1 :=
  if_neg (Nat.not_lt.2 h)

theorem shift_ne (n id : Nat) : shift n id ≠ n := by
  unfold shift
  split <;> omega

theorem shift_injective {n id id' : Nat} (h : shift n id = shift n id') : id = id' := by
  unfold shift at h
  split at h <;> split at h <;> omega

/-- The names of each frame.  There were `n` frames to begin with. -/
structure Layout (n : Nat) where
  frames : List (List String)
  start : n ≤ frames.length

namespace Layout

variable {n : Nat} (w : Layout n) (added : List String)

def size : Nat := w.frames.length

/-- The names of a frame. -/
def names (id : Nat) : List String := w.frames.getD id []

/-- The names of a frame in the store that has one more, made at `n`. -/
def namesShifted (id : Nat) : List String :=
  if id < n then w.names id else if id = n then added else w.names (id - 1)

/-- The layout with one more frame. -/
def push (names : List String) : Layout n :=
  ⟨w.frames ++ [names], Nat.le_trans w.start (by simp)⟩

/-- Frames are only ever added. -/
instance : Preorder (Layout n) where
  le w w' := w.size ≤ w'.size ∧ ∀ id < w.size, w'.names id = w.names id
  le_refl w := ⟨Nat.le_refl _, fun _ _ => rfl⟩
  le_trans w₁ w₂ w₃ h₁ h₂ := by
    refine ⟨Nat.le_trans h₁.1 h₂.1, fun id hid => ?_⟩
    rw [h₂.2 id (Nat.lt_of_lt_of_le hid h₁.1), h₁.2 id hid]

theorem size_push (names : List String) : (w.push names).size = w.size + 1 := by
  simp [size, push]

theorem names_push (names : List String) (id : Nat) :
    (w.push names).names id = if id = w.size then names else w.names id := by
  simp only [Layout.names, push, size, List.getD_eq_getElem?_getD]
  rcases Nat.lt_trichotomy id w.frames.length with h | h | h
  · rw [List.getElem?_append_left h, if_neg (Nat.ne_of_lt h)]
  · subst h
    simp
  · rw [List.getElem?_eq_none (by simpa using Nat.succ_le_of_lt h),
      List.getElem?_eq_none (Nat.le_of_lt h), if_neg (Nat.ne_of_gt h)]

theorem names_of_size_le {id : Nat} (h : w.size ≤ id) : w.names id = [] := by
  rw [names, List.getD_eq_getElem?_getD, List.getElem?_eq_none h, Option.getD_none]

theorem le_push (names : List String) : w ≤ w.push names := by
  refine ⟨by rw [size_push]; exact Nat.le_succ _, fun id hid => ?_⟩
  rw [names_push, if_neg (Nat.ne_of_lt hid)]

theorem namesShifted_shift (id : Nat) : w.namesShifted added (shift n id) = w.names id := by
  unfold namesShifted
  rcases Nat.lt_or_ge id n with h | h
  · rw [shift_of_lt h, if_pos h]
  · rw [shift_of_le h, if_neg (Nat.not_lt.2 (Nat.le_succ_of_le h)),
      if_neg (Nat.ne_of_gt (Nat.lt_succ_of_le h)), Nat.add_sub_cancel]

theorem namesShifted_self : w.namesShifted added n = added := by
  rw [namesShifted, if_neg (Nat.lt_irrefl n), if_pos rfl]

theorem namesShifted_push (names : List String) (id : Nat) :
    (w.push names).namesShifted added id
      = if id = w.size + 1 then names else w.namesShifted added id := by
  have hstart : n ≤ w.size := w.start
  by_cases hid : ∃ k, id = shift n k
  · obtain ⟨k, rfl⟩ := hid
    have hiff : shift n k = w.size + 1 ↔ k = w.size := by
      rw [← shift_of_le hstart]
      exact ⟨shift_injective, congrArg (shift n)⟩
    simp only [namesShifted_shift, names_push, hiff]
  · -- only the frame at `n` does not come from the first store
    obtain rfl : id = n := by
      by_contra hne
      rcases Nat.lt_or_gt_of_ne hne with h | h
      · exact hid ⟨id, (shift_of_lt h).symm⟩
      · exact hid ⟨id - 1, by rw [shift_of_le (by omega)]; omega⟩
    rw [namesShifted_self, namesShifted_self, if_neg (by omega)]

theorem namesShifted_of_le {w w' : Layout n} (h : w ≤ w') {id : Nat} (hid : id ≤ w.size) :
    w'.namesShifted added id = w.namesShifted added id := by
  unfold namesShifted
  have hstart : n ≤ w.size := w.start
  split
  · next hlt => exact h.2 id (Nat.lt_of_lt_of_le hlt hstart)
  · split
    · rfl
    · next hlt hne => exact h.2 (id - 1) (by omega)

end Layout

/-- The first of some frames that has a name. -/
def firstWith (names : FrameId → List String) (x : String) (ids : List FrameId) :
    Option FrameId :=
  ids.find? fun id => x ∈ names id

theorem firstWith_congr {names names' : FrameId → List String} {x : String} {ids : List FrameId}
    (h : ∀ id ∈ ids, x ∈ names id ↔ x ∈ names' id) :
    firstWith names x ids = firstWith names' x ids := by
  induction ids with
  | nil => rfl
  | cons id ids ih =>
    have htail := ih fun i hi => h i (List.mem_cons_of_mem id hi)
    simp only [firstWith, List.find?_cons, h id List.mem_cons_self] at htail ⊢
    split
    · rfl
    · exact htail

theorem firstWith_cons (names : FrameId → List String) (x : String) (id : FrameId)
    (ids : List FrameId) :
    firstWith names x (id :: ids) = if x ∈ names id then some id else firstWith names x ids := by
  simp only [firstWith, List.find?_cons]
  by_cases h : x ∈ names id <;> simp [h]

/-- The layout tells which names the frames of a store bind. -/
def Describes (names : FrameId → List String) (s : Store) : Prop :=
  ∀ id x, (s.frame id).has x = true ↔ x ∈ names id

namespace Describes

variable {names : FrameId → List String} {s : Store}

theorem holderIn_eq (h : Describes names s) (x : String) (ids : List FrameId) :
    s.holderIn x ids = firstWith names x ids := by
  induction ids with
  | nil => rfl
  | cons id ids ih =>
    simp only [Store.holderIn, firstWith_cons, ih, h id x]

/-- An assignment binds no name anew. -/
theorem update (h : Describes names s) {id : FrameId} {x : String} (hx : x ∈ names id)
    (v : Value) : Describes names (s.update id x v) := by
  intro other y
  rw [Store.frame_update_eq]
  split
  · next hid =>
    rw [hid.1, Bindings.has_set, ← h id y]
    by_cases hxy : x = y
    · simp [← hxy, (h id x).2 hx]
    · simp [hxy]
  · exact h other y

theorem extend (h : Describes names s) (env : Env) (pairs : List (String × Value))
    {names' : FrameId → List String}
    (hnames : ∀ id, names' id = if id = s.frames.size then pairs.map (·.1) else names id) :
    Describes names' (s.extend env pairs).2 := by
  intro id x
  rw [Store.frame_extend_eq, hnames]
  split
  · rw [Bindings.has_ofList, List.contains_iff_mem]
  · exact h id x

end Describes

/-! ### Where names are found -/

section

variable {n : Nat} {added : List String} {w w' : Layout n} {x : String} {e : Exp}
variable {env env' : Env}

/-- A name is found in frames that go together, or on neither side. -/
def SameHolder (added : List String) (w : Layout n) (x : String) (ids ids' : List FrameId) :
    Prop :=
  firstWith (w.namesShifted added) x ids' = (firstWith w.names x ids).map (shift n)

/-- Frames that exist, and in which each free name of an expression is found alike,
and so is the trace count. -/
structure Visible (added : List String) (w : Layout n) (e : Exp) (env env' : Env) : Prop where
  bound : ∀ id ∈ env.frames, id < w.size
  bound' : ∀ id ∈ env'.frames, id ≤ w.size
  same : ∀ x, x ∈ e.free ∨ x = Trace.countName → SameHolder added w x env.frames env'.frames

theorem Visible.mono (hw : w ≤ w') (h : Visible added w e env env') :
    Visible added w' e env env' where
  bound id hid := Nat.lt_of_lt_of_le (h.bound id hid) hw.1
  bound' id hid := Nat.le_trans (h.bound' id hid) hw.1
  same x hx := by
    have hleft : firstWith w'.names x env.frames = firstWith w.names x env.frames :=
      firstWith_congr fun id hid => by rw [hw.2 id (h.bound id hid)]
    have hright : firstWith (w'.namesShifted added) x env'.frames
        = firstWith (w.namesShifted added) x env'.frames :=
      firstWith_congr fun id hid => by rw [Layout.namesShifted_of_le added hw (h.bound' id hid)]
    rw [SameHolder, hleft, hright]
    exact h.same x hx

/-- Names that a new frame binds are found in that frame, on both sides; the others
where they were found before. -/
theorem Visible.inside {names : List String} {body : Exp} (h : Visible added w e env env')
    (hbody : (names, body) ∈ e.bodies) :
    Visible added (w.push names) body ⟨w.size, env.frames⟩ ⟨w.size + 1, env'.frames⟩ := by
  have hpush : Visible added (w.push names) e env env' := h.mono (w.le_push names)
  have hshift : shift n w.size = w.size + 1 := shift_of_le w.start
  refine ⟨?_, ?_, ?_⟩
  · intro id hid
    rcases List.mem_cons.1 hid with rfl | hid
    · exact w.size_push names ▸ Nat.lt_succ_self _
    · exact hpush.bound id hid
  · intro id hid
    rcases List.mem_cons.1 hid with rfl | hid
    · exact Nat.le_of_eq (w.size_push names).symm
    · exact hpush.bound' id hid
  · intro x hx
    have hnew : (w.push names).names w.size = names := by rw [Layout.names_push, if_pos rfl]
    have hnew' : (w.push names).namesShifted added (w.size + 1) = names := by
      rw [← hshift, Layout.namesShifted_shift, hnew]
    show firstWith ((w.push names).namesShifted added) x ((w.size + 1) :: env'.frames)
      = (firstWith (w.push names).names x (w.size :: env.frames)).map (shift n)
    rw [firstWith_cons, firstWith_cons, hnew, hnew']
    -- a free name of the body is bound by the new frame or free in `e`
    by_cases hxn : x ∈ names
    · rw [if_pos hxn, if_pos hxn, Option.map_some, hshift]
    · rw [if_neg hxn, if_neg hxn]
      exact hpush.same x (hx.imp (fun hx => (Exp.free_body hbody hx).resolve_left hxn) id)

/-- In frames that were there to begin with a name is found alike. -/
theorem sameHolder_of_lt (added : List String) (w : Layout n) (x : String) {ids : List FrameId}
    (h : ∀ id ∈ ids, id < n) : SameHolder added w x ids ids := by
  induction ids with
  | nil => rfl
  | cons id ids ih =>
    have htail := ih fun i hi => h i (List.mem_cons_of_mem id hi)
    have hid : shift n id = id := shift_of_lt (h id List.mem_cons_self)
    have hnames : w.namesShifted added id = w.names id := by
      rw [← w.namesShifted_shift added id, hid]
    rw [SameHolder, firstWith_cons, firstWith_cons, hnames]
    split
    · rw [Option.map_some, hid]
    · exact htail

theorem visible_of_lt (added : List String) (w : Layout n) (e : Exp)
    (h : ∀ id ∈ env.frames, id < n) : Visible added w e env env where
  bound id hid := Nat.lt_of_lt_of_le (h id hid) w.start
  bound' id hid := Nat.le_of_lt (Nat.lt_of_lt_of_le (h id hid) w.start)
  same x _ := sameHolder_of_lt added w x h

/-- A frame whose names are not free in an expression hides nothing from it. -/
theorem visible_added (w : Layout n) (henv : ∀ id ∈ env.frames, id < n)
    (hfree : ∀ x ∈ added, x ≠ Trace.countName ∧ x ∉ e.free) :
    Visible added w e env ⟨n, env.frames⟩ where
  bound id hid := Nat.lt_of_lt_of_le (henv id hid) w.start
  bound' id hid := by
    rcases List.mem_cons.1 hid with rfl | hid
    · exact w.start
    · exact Nat.le_of_lt (Nat.lt_of_lt_of_le (henv id hid) w.start)
  same x hx := by
    -- so the new frame is passed over
    have hxn : x ∉ added := fun hmem => hx.elim (hfree x hmem).2 (hfree x hmem).1
    show firstWith (w.namesShifted added) x (n :: env.frames) = _
    rw [firstWith_cons, w.namesShifted_self added, if_neg hxn]
    exact sameHolder_of_lt added w x henv

end

/-! ### Stores that go together -/

/-- The names of the bindings of the new frame. -/
abbrev boundNames (extra : List (String × Value)) : List String := extra.map (·.1)

/-- Closures of the same function that find its free names alike. -/
abbrev SameVisibly {n : Nat} (extra : List (String × Value)) (w : Layout n) :
    Value → Value → Prop :=
  Value.Alike True fun f => Visible (boundNames extra) w f.toExp

/-- The states of the two evaluations: the second one has the frame of the `extra`
bindings at `n`, as it was made, and otherwise the frames of the first. -/
structure Aligned {n : Nat} (extra : List (String × Value)) (w : Layout n) (m m' : State) :
    Prop where
  size : m.memory.store.frames.size = w.size
  size' : m'.memory.store.frames.size = w.size + 1
  left : Describes w.names m.memory.store
  right : Describes (w.namesShifted (boundNames extra)) m'.memory.store
  frames : ∀ id, Bindings.Paired (fun _ => SameVisibly extra w) (m.memory.store.frame id)
    (m'.memory.store.frame (shift n id))
  added : m'.memory.store.frame n = .ofList extra
  labels : m.memory.nextLabel = m'.memory.nextLabel
  console : m.console = m'.console
  indent : m.indent = m'.indent

section

variable {n : Nat} {extra : List (String × Value)} {w : Layout n} {m m' : State}
variable {env env' : Env} {x : String}

/-- A name that is found alike has values that go together. -/
theorem Aligned.get? (hm : Aligned extra w m m')
    (hx : SameHolder (boundNames extra) w x env.frames env'.frames) :
    Option.Rel (SameVisibly extra w) (m.memory.store.get? env x)
      (m'.memory.store.get? env' x) := by
  rw [Store.get?, Store.get?, Store.getIn_eq_bind, Store.getIn_eq_bind, hm.left.holderIn_eq,
    hm.right.holderIn_eq, hx]
  cases firstWith w.names x env.frames with
  | none => exact .none
  | some id => exact (hm.frames id).get? x

theorem Aligned.update (hm : Aligned extra w m m') {id : FrameId} (hid : x ∈ w.names id)
    {v v' : Value} (hv : SameVisibly extra w v v') :
    Aligned extra w (m.mapStore fun s => s.update id x v)
      (m'.mapStore fun s => s.update (shift n id) x v') where
  size := (Store.size_update ..).trans hm.size
  size' := (Store.size_update ..).trans hm.size'
  left := hm.left.update hid v
  right := by
    refine hm.right.update ?_ v'
    rwa [Layout.namesShifted_shift]
  frames other := by
    simp only [State.mapStore, Store.frame_update_eq, hm.size, hm.size']
    -- the frame exists on one side if its partner exists on the other
    have hlt : shift n id < w.size + 1 ↔ id < w.size := by
      have hstart : n ≤ w.size := w.start
      rcases Nat.lt_or_ge id n with h | h
      · rw [shift_of_lt h]
        exact ⟨fun _ => Nat.lt_of_lt_of_le h hstart, fun h => Nat.lt_succ_of_lt h⟩
      · rw [shift_of_le h]
        exact Nat.succ_lt_succ_iff
    have hiff : shift n other = shift n id ∧ shift n id < w.size + 1
        ↔ other = id ∧ id < w.size := by
      rw [hlt]
      exact and_congr_left fun _ => ⟨shift_injective, congrArg (shift n)⟩
    simp only [hiff]
    split
    · exact (hm.frames id).set hv
    · exact hm.frames other
  added := by
    rw [← hm.added]
    exact Store.frame_update_ne (shift_ne n id).symm _ _
  labels := hm.labels
  console := hm.console
  indent := hm.indent

/-- A name that is found alike is overwritten in frames that go together. -/
theorem Aligned.holder (hm : Aligned extra w m m')
    (hx : SameHolder (boundNames extra) w x env.frames env'.frames) {v v' : Value}
    (hv : SameVisibly extra w v v') :
    Option.Rel (fun id id' => Aligned extra w (m.mapStore fun s => s.update id x v)
        (m'.mapStore fun s => s.update id' x v'))
      (m.memory.store.holder? env x) (m'.memory.store.holder? env' x) := by
  rw [Store.holder?, Store.holder?, hm.left.holderIn_eq, hm.right.holderIn_eq, hx]
  cases hid : firstWith w.names x env.frames with
  | none => exact .none
  | some id => exact .some (hm.update (by simpa using List.find?_some hid) hv)

/-- New frames with the same names go together. -/
theorem Aligned.extend (hm : Aligned extra w m m') {names : List String} {vs vs' : List Value}
    (hlen : vs.length = names.length)
    (hvs : List.Forall₂ (SameVisibly extra (w.push names)) vs vs') :
    Aligned extra (w.push names) (m.extend env (names.zip vs)).2
      (m'.extend env' (names.zip vs')).2 := by
  have hstart : n ≤ w.size := w.start
  have hshift : shift n w.size = w.size + 1 := shift_of_le hstart
  have hnames : (names.zip vs).map (·.1) = names := List.map_fst_zip (Nat.le_of_eq hlen.symm)
  have hnames' : (names.zip vs').map (·.1) = names :=
    List.map_fst_zip (Nat.le_of_eq (by rw [← hvs.length_eq, hlen]))
  refine ⟨?_, ?_, ?_, ?_, ?_, ?_, hm.labels, hm.console, hm.indent⟩
  · rw [Layout.size_push, ← hm.size]
    exact Store.size_extend _ env _
  · rw [Layout.size_push, ← hm.size']
    exact Store.size_extend _ env' _
  · refine hm.left.extend env _ fun id => ?_
    rw [Layout.names_push, hm.size, hnames]
  · refine hm.right.extend env' _ fun id => ?_
    rw [Layout.namesShifted_push, hm.size', hnames']
  · intro id
    simp only [State.extend, State.mapStore, Store.frame_extend_eq, hm.size, hm.size']
    have hiff : shift n id = w.size + 1 ↔ id = w.size := by
      rw [← hshift]
      exact ⟨shift_injective, congrArg (shift n)⟩
    simp only [hiff]
    split
    · exact ((Bindings.Paired.zip hvs names).imp fun _ _ _ hv => hv.2).ofList
    · exact (hm.frames id).imp fun _ _ _ hv => hv.imp fun _ _ _ hf => hf.mono (w.le_push names)
  · rw [← hm.added]
    exact Store.frame_extend (by rw [hm.size']; exact Nat.lt_succ_of_le hstart) env' _

end

/-- The evaluations in an environment and inside the frame of some `extra` bindings. -/
def scopingCoupling (n : Nat) (extra : List (String × Value)) : Coupling (Layout n) where
  state := Aligned extra
  scope := Visible (boundNames extra)
  hole := True
  grow := Layout.push

theorem scopingCoupling_simulates (n : Nat) (extra : List (String × Value)) :
    (scopingCoupling n extra).Simulates where
  le_grow w names := w.le_push names
  scope_mono hw h := h.mono hw
  scope_part h hpart := ⟨h.bound, h.bound', fun x hx => h.same x (hx.imp (Exp.free_part hpart) id)⟩
  scope_body := by
    intro w e env env' names body m m' hm hscope hbody
    have hin := hscope.inside hbody
    rw [← hm.size] at hin
    rw [hm.size, ← hm.size'] at hin
    rw [State.inside, hm.size]
    exact hin
  extend := fun hm _ _ hlen hvs => hm.extend hlen hvs
  placeholders := by
    intro w env env' bindings body m m' hm _
    refine ⟨w.push (bindings.map (·.1)), w.le_push _, ?_⟩
    rw [map_placeholder_eq_zip]
    refine hm.extend (by simp) (List.forall₂_same.2 fun v hv => ?_)
    obtain ⟨b, -, rfl⟩ := List.mem_map.1 hv
    exact .unspecified trivial
  var hm hscope := hm.get? (hscope.same _ (.inl (by simp [Exp.free, Exp.collect])))
  set hm hscope hv := hm.holder (hscope.same _ (.inl (by simp [Exp.free, Exp.collect]))) hv
  out_eq hm := by rw [hm.console]
  withOut hm out :=
    ⟨hm.size, hm.size', hm.left, hm.right, hm.frames, hm.added, hm.labels,
      by simp only [Machine.withOut, hm.console], hm.indent⟩
  around := by
    intro w callee args env env' m m' call run run' hm hscope hrun
    have hsame := hscope.same Trace.countName (.inr rfl)
    refine Coupling.match_around (c := scopingCoupling n extra) ⟨?_, ?_, ?_⟩ (hm.get? hsame)
      (fun k t t' ht => Aligned.holder ht hsame (.number k)) hm fun s s' => hrun w le_rfl s s'
    · exact fun hs => hs.console
    · exact fun hs => hs.indent
    · intro w s s' hs diag indent
      exact ⟨hs.size, hs.size', hs.left, hs.right, hs.frames, hs.added, hs.labels,
        by simp only [Machine.withDiag, hs.console], rfl⟩

/-! ### Evaluation inside one more frame -/

/-- No frame holds a closure over frames that do not exist. -/
def Store.Closed (s : Store) : Prop :=
  ∀ id, ∀ b ∈ s.frame id, ∀ c ∈ b.2.closures, ∀ id' ∈ c.2.frames, id' < s.frames.size

/-- The layout of a store. -/
def Store.layout (s : Store) : Layout s.frames.size :=
  ⟨s.frames.toList.map Bindings.names, by simp⟩

theorem Store.size_layout (s : Store) : s.layout.size = s.frames.size := by
  simp [Layout.size, Store.layout]

theorem Store.describes_layout (s : Store) : Describes s.layout.names s := by
  intro id x
  have hnames : s.layout.names id = (s.frame id).names := by
    simp only [Layout.names, Store.layout, Store.frame, List.getD_eq_getElem?_getD,
      List.getElem?_map, Array.getElem?_toList, Array.getD_eq_getD_getElem?]
    cases s.frames[id]? <;> rfl
  rw [hnames, Bindings.mem_names_iff]

variable {m : State}

/-- A state and the same with one more frame go together. -/
theorem aligned_extend (hm : m.memory.store.Closed) (env : Env) (extra : List (String × Value)) :
    Aligned extra m.memory.store.layout m (m.extend env extra).2 where
  size := m.memory.store.size_layout.symm
  size' := by
    rw [Store.size_layout]
    exact Store.size_extend _ env extra
  left := m.memory.store.describes_layout
  right := by
    refine m.memory.store.describes_layout.extend env extra fun id => ?_
    have hbeyond : ∀ id, m.memory.store.frames.size ≤ id → m.memory.store.layout.names id = [] :=
      fun id hid => Layout.names_of_size_le _ (by rwa [Store.size_layout])
    -- before the new frame, the new frame, and after it, where there is nothing yet
    unfold Layout.namesShifted
    rcases Nat.lt_trichotomy id m.memory.store.frames.size with h | h | h
    · rw [if_pos h, if_neg (Nat.ne_of_lt h)]
    · rw [if_neg (Nat.not_lt.2 (Nat.le_of_eq h.symm)), if_pos h, if_pos h]
    · rw [if_neg (Nat.not_lt.2 (Nat.le_of_lt h)), if_neg (Nat.ne_of_gt h),
        if_neg (Nat.ne_of_gt h), hbeyond _ (Nat.le_sub_one_of_lt h), hbeyond _ (Nat.le_of_lt h)]
  frames id := by
    rcases Nat.lt_or_ge id m.memory.store.frames.size with h | h
    · have hframe : (m.extend env extra).2.memory.store.frame id = m.memory.store.frame id :=
        Store.frame_extend h env extra
      rw [shift_of_lt h, hframe]
      refine Bindings.Paired.refl fun b hb => Value.Alike.of_closures trivial _ fun c hc => ?_
      exact visible_of_lt _ _ _ (hm id b hb c hc)
    · have hframe : (m.extend env extra).2.memory.store.frame (id + 1) = [] := by
        refine Store.frame_of_size_le _ ?_
        rw [show (m.extend env extra).2.memory.store.frames.size = _ from
          Store.size_extend _ env extra]
        exact Nat.succ_le_succ h
      rw [shift_of_le h, hframe, Store.frame_of_size_le _ h]
      exact .nil
  added := Store.frame_extend_size _ env extra
  labels := rfl
  console := rfl
  indent := rfl

/-- What is the same after evaluations with and without the frame of some `extra`
bindings, made when there were `n` frames: all that was written, and the printed
form of every variable that can be seen from a frame made before.  The new
frame is as it was made. -/
structure SameOutside (n : Nat) (extra : List (String × Value)) (m m' : State) : Prop where
  console : m.console = m'.console
  indent : m.indent = m'.indent
  visible : ∀ (env : Env) (x : String), (∀ id ∈ env.frames, id < n) →
    (m.memory.store.get? env x).map Value.text = (m'.memory.store.get? env x).map Value.text
  added : m'.memory.store.frame n = .ofList extra

theorem Aligned.sameOutside {n : Nat} {extra : List (String × Value)} {w : Layout n}
    {m m' : State} (hm : Aligned extra w m m') : SameOutside n extra m m' where
  console := hm.console
  indent := hm.indent
  visible env x henv := by
    have hx := hm.get? (sameHolder_of_lt (boundNames extra) w x henv)
    obtain ⟨h, h'⟩ | ⟨v, v', h, h', hv⟩ := none_or_some_of_rel hx
    · rw [h, h', Option.map_none]
    · rw [h, h', Option.map_some, Option.map_some, hv.text_eq]
  added := hm.added

/-- **Lexical scoping.**  Bindings whose names are not free in an expression, and are
not the trace count, make no difference to its evaluation: inside a frame of
such bindings it does not end, or ends in a value with the same printed form or
in the same error, as it does without them; at every moment the same has been
written; every variable of before looks the same; and the bindings themselves
are untouched. -/
theorem unrelated_bindings_are_inert (e : Exp) (env : Env) (m : State)
    (extra : List (String × Value)) (depth start : Nat) (hm : m.memory.store.Closed)
    (henv : ∀ id ∈ env.frames, id < m.memory.store.frames.size)
    (hextra : ∀ x ∈ extra.map (·.1), x ≠ Trace.countName ∧ x ∉ e.free) :
    let run := evalFrom depth start e env m
    let run' := evalFrom depth start e (m.extend env extra).1 (m.extend env extra).2
    EndTogether
        (Agree (SameOutside m.memory.store.frames.size extra) fun v v' => v.text = v'.text)
        run run' ∧
      ∀ turns, (run turns).state.console = (run' turns).state.console := by
  intro run run'
  have hrun : ∀ turns, Match (Aligned extra) (SameVisibly extra) m.memory.store.layout
      (run turns) (run' turns) := fun turns =>
    (scopingCoupling_simulates _ extra).eval ⟨depth, turns⟩ (depth - start) e
      (aligned_extend hm env extra) (visible_added _ henv hextra)
  refine ⟨endTogether_of_forall (fun turns => (hrun turns).finished_eq) fun turns _ => ?_, ?_⟩
  · exact (hrun turns).forget (fun _ _ _ hs => hs.sameOutside) fun _ _ _ hv => hv.text_eq
  · intro turns
    obtain ⟨w, -, hs⟩ := (hrun turns).state
    exact hs.console

/-- A function whose parameter has the name of a binding around it, made and called
inside that binding. -/
theorem unrelated_bindings_are_inert_shadowed :
    let e : Exp := .apply (.lambda 1 ["x"] (.set "y" (.apply (.var "f") [.var "x"])))
      [.literal (.bool true)]
    let f : Lambda := ⟨0, ["z"], .apply (.var "println") [.var "z"]⟩
    let globals : Frame :=
      [("println", .primitive .println), ("f", .closure f .globals), ("y", .nil)]
    let m : State := ⟨⟨⟨#[globals]⟩, 2⟩, .empty, 0⟩
    let extra : List (String × Value) := [("x", .symbol "hidden"), ("z", .nil)]
    m.memory.store.Closed ∧
      (∀ id ∈ Env.globals.frames, id < m.memory.store.frames.size) ∧
      (∀ x ∈ extra.map (·.1), x ≠ Trace.countName ∧ x ∉ e.free) ∧
      EndTogether
        (Agree (SameOutside m.memory.store.frames.size extra) fun v v' => v.text = v'.text)
        (evalFrom 9 0 e .globals m)
        (evalFrom 9 0 e (m.extend .globals extra).1 (m.extend .globals extra).2) := by
  intro e f globals m extra
  have hm : m.memory.store.Closed := by
    intro id b hb c hc id' hid'
    have hb' : b ∈ globals := by
      cases id with
      | zero => exact hb
      | succ id =>
        rw [Store.frame_of_size_le _ (Nat.succ_le_succ (Nat.zero_le id))] at hb
        cases hb
    obtain rfl : c = (f, .globals) := by
      revert c
      simp only [globals, List.mem_cons, List.not_mem_nil, or_false] at hb'
      rcases hb' with rfl | rfl | rfl <;> simp [Value.closures]
    simp [Env.frames, Env.globals] at hid'
    exact hid' ▸ Nat.zero_lt_one
  have henv : ∀ id ∈ Env.globals.frames, id < m.memory.store.frames.size := by decide
  have hextra : ∀ x ∈ extra.map (·.1), x ≠ Trace.countName ∧ x ∉ e.free := by decide
  exact ⟨hm, henv, hextra, (unrelated_bindings_are_inert e .globals m extra 9 0 hm henv hextra).1⟩

end Primer.Functional
