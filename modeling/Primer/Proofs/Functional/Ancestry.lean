/-
Primer/Proofs/Functional/Ancestry.lean

The shape of the frames.

An environment lists the frames around its innermost one, so nothing in the
representation keeps two environments from disagreeing about what is around a
frame, or from ending somewhere else than in the global frame.  No interpreter
gets there.  Each frame has one parent, from when it is made, and the chain of
parents of every frame ends in the global frame; all environments follow these
chains (`Store.RootedBy`).  An evaluation, however it ends, makes new frames but
leaves the names and the parent of every frame as they were; a definition adds
at most the name that it defines, to the global frame
(`frames_keep_their_shape`).

With a collector the names of a frame may go, but only all of them, and only when
the frame is out of use: when neither the globals nor what is held nor the value
that was returned leads to it any more.
-/
import Primer.Proofs.Functional.Closed
import Primer.Proofs.Functional.Collector
import Primer.Proofs.Functional.Discipline

namespace Primer.Functional

open Outcome

/-! ### Chains of parents -/

/-- The parent of each frame; the global frame has none. -/
abbrev Parents := Ledger (Option FrameId)

/-- The frames around a frame, from its parent out to the global frame. -/
inductive Chain (parents : Parents) : FrameId → List FrameId → Prop
  | globals : parents.entries[0]? = some none → Chain parents 0 []
  | inside {id parent : FrameId} {outer : List FrameId} :
      parents.entries[id]? = some (some parent) → Chain parents parent outer →
        Chain parents id (parent :: outer)

/-- The closures in a value are over environments that follow the chains. -/
def Value.RootedBy (parents : Parents) (v : Value) : Prop :=
  ∀ c ∈ v.closures, Chain parents c.2.inner c.2.outer

/-- Every frame has a parent, the global frame apart, and a chain of parents that ends in
the global frame; and every closure is over an environment that follows the chains. -/
structure Store.RootedBy (parents : Parents) (s : Store) : Prop where
  size : parents.entries.length = s.frames.size
  globals : parents.entries[0]? = some none
  frames : ∀ id, id < s.frames.size → ∃ outer, Chain parents id outer
  values : ∀ id, ∀ b ∈ s.frame id, b.2.RootedBy parents

section

variable {parents parents' : Parents} {id : FrameId} {outer : List FrameId} {env : Env}

theorem Chain.mono (hle : parents ≤ parents') (h : Chain parents id outer) :
    Chain parents' id outer := by
  induction h with
  | globals h => exact .globals (Ledger.getElem?_of_le hle h)
  | inside h _ ih => exact .inside (Ledger.getElem?_of_le hle h) ih

/-- A frame made inside an environment has the frames of the environment around it. -/
theorem Chain.push (h : Chain parents env.inner env.outer) :
    Chain (parents.push (some env.inner)) parents.entries.length env.frames :=
  .inside (parents.getElem?_push_length _) (h.mono (parents.le_push _))

theorem Value.RootedBy.mono (hle : parents ≤ parents') {v : Value} (h : v.RootedBy parents) :
    v.RootedBy parents' :=
  fun c hc => (h c hc).mono hle

/-- A global name bound to another value. -/
theorem Store.RootedBy.define {s : Store} (hs : s.RootedBy parents) (name : String) {v : Value}
    (hv : v.RootedBy parents) : (s.define .globals name v).RootedBy parents where
  size := by
    rw [Store.define, Store.size_update]
    exact hs.size
  globals := hs.globals
  frames id hid := by
    rw [Store.define, Store.size_update] at hid
    exact hs.frames id hid
  values id b hb := by
    rw [Store.define, Store.frame_update_eq] at hb
    split at hb
    · rcases Bindings.mem_set hb with hb | rfl
      · exact hs.values _ b hb
      · exact hv
    · exact hs.values id b hb

end

/-! ### Evaluation -/

/-- Every frame has its chain, and the frames of a given store have the names that they
have there. -/
structure Shaped (before : Store) (parents : Parents) (s : Store) : Prop where
  size : parents.entries.length = s.frames.size
  globals : parents.entries[0]? = some none
  frames : ∀ id, id < s.frames.size → ∃ outer, Chain parents id outer
  later : before.frames.size ≤ s.frames.size
  names : ∀ id, id < before.frames.size → (s.frame id).names = (before.frame id).names

/-- Environments follow the chains, and the frames of a given store keep their names. -/
def rootedDiscipline (before : Store) : Discipline Parents where
  scope parents _ env := Chain parents env.inner env.outer
  live _ _ := True
  shape := Shaped before
  hole := True
  grow parents env _ := parents.push (some env.inner)
  first := before.frames.size

section

variable {before s : Store} {parents : Parents} {env : Env}

theorem Shaped.extend (h : Shaped before parents s) (henv : Chain parents env.inner env.outer)
    (pairs : List (String × Value)) :
    Shaped before (parents.push (some env.inner)) (s.extend env pairs).2 where
  size := by rw [Ledger.length_push, Store.size_extend, h.size]
  globals := Ledger.getElem?_of_le (parents.le_push _) h.globals
  frames id hid := by
    rw [Store.size_extend] at hid
    rcases Nat.lt_or_eq_of_le (Nat.le_of_lt_succ hid) with hid | rfl
    · obtain ⟨outer, hchain⟩ := h.frames id hid
      exact ⟨outer, hchain.mono (parents.le_push _)⟩
    · exact ⟨env.frames, h.size ▸ henv.push⟩
  later := by
    rw [Store.size_extend]
    exact Nat.le_succ_of_le h.later
  names id hid := by
    rw [Store.frame_extend (Nat.lt_of_lt_of_le hid h.later)]
    exact h.names id hid

/-- A name that is bound may be bound to another value. -/
theorem Shaped.update (h : Shaped before parents s) {id : FrameId} {x : String}
    (hx : (s.frame id).has x = true) (v : Value) : Shaped before parents (s.update id x v) where
  size := by rw [Store.size_update, h.size]
  globals := h.globals
  frames other hother := by
    rw [Store.size_update] at hother
    exact h.frames other hother
  later := by
    rw [Store.size_update]
    exact h.later
  names other hother := by
    rw [Store.frame_update_eq]
    split
    · next hid =>
      obtain ⟨rfl, -⟩ := hid
      rw [Bindings.names_set, if_pos hx]
      exact h.names other hother
    · exact h.names other hother

theorem rootedDiscipline_kept (before : Store) : (rootedDiscipline before).Kept where
  le_grow parents env _ := parents.le_push (some env.inner)
  scope_mono hle henv := Chain.mono hle henv
  scope_part henv _ := henv
  scope_body := by
    intro parents s e env names body hshape henv _
    have hsize : parents.entries.length = s.frames.size := hshape.size
    exact hsize ▸ Chain.push henv
  scope_live _ _ _ := trivial
  live_grow _ _ := .inr trivial
  shape_extend hshape henv := Shaped.extend hshape henv _
  shape_update v hshape hx := Shaped.update hshape hx v
  abandon := by
    intro parents s e env names vs hshape henv
    refine ⟨parents.push (some env.inner), parents.le_push _, Shaped.extend hshape henv _, ?_⟩
    intro id _
    by_cases hid : id = s.frames.size
    · exact .inl ⟨hid, trivial⟩
    · exact .inr ⟨hid, trivial⟩

theorem rootedDiscipline_good_iff {v : Value} :
    (rootedDiscipline before).Good parents v ↔ v.RootedBy parents := by
  constructor
  · exact fun h => h.scope
  · exact fun h => Value.Alike.of_closures trivial v fun c hc => ⟨rfl, h c hc⟩

theorem Store.RootedBy.holds (h : s.RootedBy parents) : (rootedDiscipline s).Holds parents s where
  shape := ⟨h.size, h.globals, h.frames, Nat.le_refl _, fun _ _ => rfl⟩
  values id _ b hb := rootedDiscipline_good_iff.2 (h.values id b hb)

theorem Store.RootedBy.of_holds (h : (rootedDiscipline before).Holds parents s) :
    s.RootedBy parents where
  size := h.shape.size
  globals := h.shape.globals
  frames := h.shape.frames
  values id b hb := rootedDiscipline_good_iff.1 (h.values id trivial b hb)

end

/-! ### Interpreters -/

/-- What an evaluation or a definition returns, if it does. -/
def returned {σ : Type} : Outcome σ Value → List Value
  | .value v _ => [v]
  | _ => []

/-- The states that an interpreter can get to by definitions and evaluations at top level,
whatever they end in, with all the values that these have returned. -/
inductive Reached : State → List Value → Prop
  | initial (console : Console) : Reached (.initial console) []
  | define {m : State} {vs : List Value} (limits : Limits) (echo : Echo)
      (d : Definition Exp Lambda) : Reached m vs →
        Reached (define limits echo d m).state (returned (define limits echo d m) ++ vs)
  | eval {m : State} {vs : List Value} (limits : Limits) (e : Exp) : Reached m vs →
        Reached (evalGlobal limits e m).state (returned (evalGlobal limits e m) ++ vs)

/-- The name that a definition binds. -/
def definedName : Definition Exp Lambda → String
  | .val name _ => name
  | .function name _ => name
  | .exp _ => itName

/-- Frames keep their parents, and the state at the end and what is returned are rooted. -/
structure EndsRooted (parents parents' : Parents) (o : Outcome State Value) : Prop where
  parents : parents ≤ parents'
  store : o.state.memory.store.RootedBy parents'
  values : ∀ v ∈ returned o, v.RootedBy parents'

/-- All frames of a state keep their parents and their names. -/
def KeepsShape (parents : Parents) (m : State) (o : Outcome State Value) : Prop :=
  ∃ parents', EndsRooted parents parents' o ∧
    ∀ id, id < m.memory.store.frames.size →
      (o.state.memory.store.frame id).names = (m.memory.store.frame id).names

/-- All frames of a state keep their parents and their names, but that the global frame
may get one more name. -/
def AddsAtMost (name : String) (parents : Parents) (m : State) (o : Outcome State Value) : Prop :=
  ∃ parents', EndsRooted parents parents' o ∧
    (∀ id, id < m.memory.store.frames.size → id ≠ 0 →
      (o.state.memory.store.frame id).names = (m.memory.store.frame id).names) ∧
    ((o.state.memory.store.frame 0).names = (m.memory.store.frame 0).names ∨
      (o.state.memory.store.frame 0).names = (m.memory.store.frame 0).names ++ [name])

section

variable {parents : Parents} {m : State}

theorem Store.RootedBy.size_pos {s : Store} (h : s.RootedBy parents) : 0 < s.frames.size := by
  rw [← h.size]
  exact (List.getElem?_eq_some_iff.1 h.globals).1

/-- An evaluation keeps the shape of all frames there are. -/
theorem keepsShape_eval (hm : m.memory.store.RootedBy parents) (limits : Limits) (left : Nat)
    (e : Exp) {env : Env} (henv : Chain parents env.inner env.outer) :
    KeepsShape parents m (eval limits left e env m) := by
  obtain ⟨parents', hle, hholds, hvalue⟩ :=
    (rootedDiscipline_kept m.memory.store).eval limits left hm.size_pos rfl hm.holds henv (e := e)
  refine ⟨parents', ⟨hle, .of_holds hholds, ?_⟩, hholds.shape.names⟩
  intro v hv
  cases heval : eval limits left e env m with
  | value u s =>
    rw [heval] at hv
    obtain rfl := List.mem_singleton.1 hv
    exact rootedDiscipline_good_iff.1 (hvalue v s heval)
  | fault err s =>
    rw [heval] at hv
    cases hv
  | unfinished s =>
    rw [heval] at hv
    cases hv

theorem keepsShape_evalGlobal (hm : m.memory.store.RootedBy parents) (limits : Limits) (e : Exp) :
    KeepsShape parents m (evalGlobal limits e m) := by
  have hloaded : (m.load e).2.memory.store.RootedBy parents := hm
  exact keepsShape_eval hloaded limits limits.depth (m.load e).1 (.globals hm.globals)

theorem KeepsShape.addsAtMost {o : Outcome State Value} (hm : m.memory.store.RootedBy parents)
    (h : KeepsShape parents m o) (name : String) : AddsAtMost name parents m o := by
  obtain ⟨parents', hends, hnames⟩ := h
  exact ⟨parents', hends, fun id hid _ => hnames id hid, .inl (hnames 0 hm.size_pos)⟩

/-- A global name that is bound is the only one that can be new. -/
theorem addsAtMost_bindAndEcho (hm : m.memory.store.RootedBy parents) (echo : Echo)
    (name : String) {v : Value} (hv : v.RootedBy parents) (line : Unit → String) :
    AddsAtMost name parents m (bindAndEcho echo name v line m) := by
  have hstore := store_bindAndEcho echo name v line m
  have hreturned : ∀ u ∈ returned (bindAndEcho echo name v line m), u = v := by
    intro u hu
    unfold bindAndEcho at hu
    cases hecho : (m.defineGlobal name v).echo echo line with
    | value _ s =>
      rw [hecho] at hu
      exact List.mem_singleton.1 hu
    | fault e s =>
      rw [hecho] at hu
      cases hu
    | unfinished s =>
      rw [hecho] at hu
      cases hu
  have hframe : ∀ id, (m.memory.store.define .globals name v).frame id = _ := fun id =>
    Store.frame_update_eq m.memory.store 0 id name v
  refine ⟨parents, ⟨le_rfl, ?_, fun u hu => hreturned u hu ▸ hv⟩, fun id _ hne => ?_, ?_⟩
  · rw [hstore]
    exact hm.define name hv
  · rw [hstore, hframe, if_neg fun h => hne h.1]
  · rw [hstore, hframe, if_pos ⟨rfl, hm.size_pos⟩, Bindings.names_set]
    split
    · exact .inl rfl
    · exact .inr rfl

theorem addsAtMost_define (hm : m.memory.store.RootedBy parents) (limits : Limits) (echo : Echo)
    (d : Definition Exp Lambda) :
    AddsAtMost (definedName d) parents m (define limits echo d m) := by
  -- a global name bound to the value of an expression
  have hbind : ∀ (e : Exp) (name : String) (line : Value → Unit → String),
      AddsAtMost name parents m ((evalGlobal limits e m).andThen fun v m =>
        bindAndEcho echo name v (line v) m) := by
    intro e name line
    have hshape := keepsShape_evalGlobal hm limits e
    cases heval : evalGlobal limits e m with
    | value v s =>
      rw [heval] at hshape
      obtain ⟨parents₁, hends, hnames⟩ := hshape
      have hv : v.RootedBy parents₁ := hends.values v (List.mem_singleton.2 rfl)
      obtain ⟨parents₂, hends₂, hothers, hglobals⟩ :=
        addsAtMost_bindAndEcho hends.store echo name hv (line v)
      have hlater : m.memory.store.frames.size ≤ s.memory.store.frames.size := by
        have hstart : parents.entries.length = _ := hm.size
        have hend : parents₁.entries.length = s.memory.store.frames.size := hends.store.size
        rw [← hstart, ← hend]
        exact hends.parents.length_le
      refine ⟨parents₂, ⟨hends.parents.trans hends₂.parents, hends₂.store, hends₂.values⟩, ?_, ?_⟩
      · intro id hid hne
        rw [← show (s.memory.store.frame id).names = _ from hnames id hid]
        exact hothers id (Nat.lt_of_lt_of_le hid hlater) hne
      · rw [← show (s.memory.store.frame 0).names = _ from hnames 0 hm.size_pos]
        exact hglobals
    | fault err s =>
      rw [heval] at hshape
      exact hshape.addsAtMost hm name
    | unfinished s =>
      rw [heval] at hshape
      exact hshape.addsAtMost hm name
  cases d with
  | val name e => exact hbind e name fun v _ => echoText name v
  | exp e => exact hbind e itName fun v _ => v.text
  | function name f =>
    rw [define]
    cases repeated? f.formals with
    | some formal =>
      refine ⟨parents, ⟨le_rfl, hm, fun v hv => ?_⟩, fun _ _ _ => rfl, .inl rfl⟩
      cases hv
    | none =>
      have hloaded : (m.loadLambda f).2.memory.store.RootedBy parents := hm
      refine addsAtMost_bindAndEcho hloaded echo name ?_ fun _ => name
      intro c hc
      obtain rfl := List.mem_singleton.1 hc
      exact .globals hm.globals

end

theorem rootedBy_initial (console : Console) :
    (State.initial console).memory.store.RootedBy ⟨[none]⟩ where
  size := rfl
  globals := rfl
  frames id hid := by
    obtain rfl : id = 0 := Nat.lt_one_iff.1 hid
    exact ⟨[], .globals rfl⟩
  values id b hb c hc := by
    -- there are no closures yet
    obtain ⟨p, hp⟩ := primitive_of_mem_initial hb
    rw [hp] at hc
    cases hc

/-- What one more step returns is added to what was returned before. -/
theorem EndsRooted.returned {parents parents' : Parents} {vs : List Value}
    {o : Outcome State Value} (h : EndsRooted parents parents' o)
    (hvs : ∀ v ∈ vs, v.RootedBy parents) : ∀ v ∈ returned o ++ vs, v.RootedBy parents' := by
  intro v hv
  rcases List.mem_append.1 hv with hv | hv
  · exact h.values v hv
  · exact (hvs v hv).mono h.parents

/-- Every interpreter is rooted, and so is every value that it has returned. -/
theorem rootedBy_of_reached {m : State} {vs : List Value} (h : Reached m vs) :
    ∃ parents, m.memory.store.RootedBy parents ∧ ∀ v ∈ vs, v.RootedBy parents := by
  induction h with
  | initial console => exact ⟨⟨[none]⟩, rootedBy_initial console, fun v hv => nomatch hv⟩
  | define limits echo d _ ih =>
    obtain ⟨parents, hm, hvs⟩ := ih
    obtain ⟨parents', hends, -⟩ := addsAtMost_define hm limits echo d
    exact ⟨parents', hends.store, hends.returned hvs⟩
  | eval limits e _ ih =>
    obtain ⟨parents, hm, hvs⟩ := ih
    obtain ⟨parents', hends, -⟩ := keepsShape_evalGlobal hm limits e
    exact ⟨parents', hends.store, hends.returned hvs⟩

/-! ### Interpreters with a collector -/

/-- The states that an interpreter with a collector can get to by definitions and evaluations
at top level, whatever they end in, with all the values that these have returned.  During
each step the user of the interpreter may hold on to any frames, those captured by earlier
values in particular. -/
inductive Collecting.Reached : Collecting → List Value → Prop
  | initial (console : Console) (g : Collector) : Reached (.initial console g) []
  | define {c : Collecting} {vs : List Value} (limits : Limits) (echo : Echo)
      (held : List FrameId) (d : Definition Exp Lambda) : Reached c vs →
        Reached (c.define limits echo held d).state (returned (c.define limits echo held d) ++ vs)
  | eval {c : Collecting} {vs : List Value} (limits : Limits) (held : List FrameId) (e : Exp) :
      Reached c vs →
        Reached (c.evalGlobal limits held e).state (returned (c.evalGlobal limits held e) ++ vs)

/-- A frame has been let go of by the end of an evaluation, during which some frames were
held and at the end of which its value is. -/
def Gone (held : List FrameId) (o : Outcome Collecting Value) (id : FrameId) : Prop :=
  LetGo (capturedAtEnd o ++ held) o.state.plain id

/-- All frames of a state keep their parents, and their names as long as they are not let
go of. -/
def KeepsShapeInUse (held : List FrameId) (parents : Parents) (c : Collecting)
    (o : Outcome Collecting Value) : Prop :=
  ∃ parents', EndsRooted parents parents' (o.mapState Collecting.plain) ∧
    ∀ id, id < c.store.frames.size →
      (o.state.store.frame id).names = (c.store.frame id).names ∨ Gone held o id

/-- The same, but that the global frame, which is never let go of, may get one more name. -/
def AddsAtMostInUse (name : String) (held : List FrameId) (parents : Parents) (c : Collecting)
    (o : Outcome Collecting Value) : Prop :=
  ∃ parents', EndsRooted parents parents' (o.mapState Collecting.plain) ∧
    (∀ id, id < c.store.frames.size → id ≠ 0 →
      (o.state.store.frame id).names = (c.store.frame id).names ∨ Gone held o id) ∧
    ((o.state.store.frame 0).names = (c.store.frame 0).names ∨
      (o.state.store.frame 0).names = (c.store.frame 0).names ++ [name])

section

variable {parents parents' : Parents} {held : List FrameId} {c : Collecting}
  {o : Outcome Collecting Value} {o' : Outcome State Value}

theorem SameInUse.rootedBy {m m' : State} (h : SameInUse held m' m)
    (hm : m.memory.store.RootedBy parents) : m'.memory.store.RootedBy parents where
  size := hm.size.trans h.size.symm
  globals := hm.globals
  frames id hid := hm.frames id (h.size ▸ hid)
  values id b hb := by
    rcases h.others id with heq | heq
    · exact hm.values id b (heq ▸ hb)
    · rw [heq] at hb
      cases hb

theorem Alongside.endsRooted (h : Alongside Value.captured held o o')
    (hends : EndsRooted parents parents' o') :
    EndsRooted parents parents' (o.mapState Collecting.plain) := by
  have hreturned : returned (o.mapState Collecting.plain) = returned o' := by
    cases h with
    | value _ _ hv => exact congrArg ([·]) hv.1
    | fault _ _ => rfl
    | unfinished _ _ => rfl
  refine ⟨hends.parents, ?_, hreturned ▸ hends.values⟩
  rw [state_mapState]
  exact h.atEnd.2.rootedBy hends.store

theorem Alongside.names_or_gone (h : Alongside Value.captured held o o') (id : FrameId) :
    (o.state.store.frame id).names = (o'.state.memory.store.frame id).names ∨ Gone held o id :=
  (h.atEnd.2.eq_or_letGo id).imp_left (congrArg Bindings.names)

/-- Beside an evaluation that keeps the shape of all frames. -/
theorem KeepsShape.collecting (hshape : KeepsShape parents c.plain o')
    (h : Alongside Value.captured held o o') : KeepsShapeInUse held parents c o := by
  obtain ⟨parents', hends, hnames⟩ := hshape
  refine ⟨parents', h.endsRooted hends, fun id hid => ?_⟩
  rw [show (c.store.frame id).names = _ from (hnames id hid).symm]
  exact h.names_or_gone id

theorem AddsAtMost.collecting {name : String} (hshape : AddsAtMost name parents c.plain o')
    (h : Alongside Value.captured held o o') : AddsAtMostInUse name held parents c o := by
  obtain ⟨parents', hends, hothers, hglobals⟩ := hshape
  refine ⟨parents', h.endsRooted hends, fun id hid hne => ?_, ?_⟩
  · rw [show (c.store.frame id).names = _ from (hothers id hid hne).symm]
    exact h.names_or_gone id
  · have hframe : o.state.store.frame 0 = o'.state.memory.store.frame 0 :=
      h.atEnd.2.inUse 0 (inUse_globals List.mem_cons_self)
    rw [hframe]
    exact hglobals

theorem keepsShapeInUse_eval (hc : c.store.RootedBy parents) (limits : Limits) (left : Nat)
    (held : List FrameId) (e : Exp) {env : Env} (henv : Chain parents env.inner env.outer) :
    KeepsShapeInUse (env.frames ++ held) parents c (c.eval limits left held e env) :=
  (keepsShape_eval (m := c.plain) hc limits left e henv).collecting
    (alongside_eval limits left held e env c c.plain (.refl _ _))

theorem keepsShapeInUse_evalGlobal (hc : c.store.RootedBy parents) (limits : Limits)
    (held : List FrameId) (e : Exp) :
    KeepsShapeInUse held parents c (c.evalGlobal limits held e) :=
  (keepsShape_evalGlobal (m := c.plain) hc limits e).collecting
    (alongside_evalGlobal limits e (.refl _ _))

theorem addsAtMostInUse_define (hc : c.store.RootedBy parents) (limits : Limits) (echo : Echo)
    (held : List FrameId) (d : Definition Exp Lambda) :
    AddsAtMostInUse (definedName d) held parents c (c.define limits echo held d) :=
  (addsAtMost_define (m := c.plain) hc limits echo d).collecting
    (alongside_define limits echo d (.refl _ _))

theorem EndsRooted.collecting (h : EndsRooted parents parents' (o.mapState Collecting.plain))
    {vs : List Value} (hvs : ∀ v ∈ vs, v.RootedBy parents) :
    o.state.store.RootedBy parents' ∧ ∀ v ∈ Functional.returned o ++ vs, v.RootedBy parents' := by
  have hstore := h.store
  rw [state_mapState] at hstore
  refine ⟨hstore, ?_⟩
  rw [show Functional.returned o = Functional.returned (o.mapState Collecting.plain) by
    cases o <;> rfl]
  exact h.returned hvs

/-- Every interpreter with a collector is rooted, and so is every value that it has
returned. -/
theorem Collecting.rootedBy_of_reached {vs : List Value} (h : c.Reached vs) :
    ∃ parents, c.store.RootedBy parents ∧ ∀ v ∈ vs, v.RootedBy parents := by
  induction h with
  | initial console g => exact ⟨⟨[none]⟩, rootedBy_initial console, fun v hv => nomatch hv⟩
  | define limits echo held d _ ih =>
    obtain ⟨parents, hc, hvs⟩ := ih
    obtain ⟨parents', hends, -⟩ := addsAtMostInUse_define hc limits echo held d
    exact ⟨parents', hends.collecting hvs⟩
  | eval limits held e _ ih =>
    obtain ⟨parents, hc, hvs⟩ := ih
    obtain ⟨parents', hends, -⟩ := keepsShapeInUse_evalGlobal hc limits held e
    exact ⟨parents', hends.collecting hvs⟩

end

/-- **Frames keep their shape.**  In a state that an interpreter can get to, every frame
has a chain of parents that ends in the global frame, and all closures in variables
and in the values returned so far are over environments that follow these chains.
From there

* to evaluate an expression, at any depth and in any environment that follows the
  chains, leaves the names and the parent of every frame as they are, however the
  evaluation ends;
* so does an evaluation at top level;
* a definition may add to the global frame the name that it defines and does
  nothing else to the names and the parents.

With a collector, whenever it collects and whatever it pins, all this holds of every
frame that is not let go of; and a frame is let go of only when it can be reached
neither from the globals nor from the environment, from what is held or from the value
returned. -/
theorem frames_keep_their_shape :
    (∀ {m : State} {vs : List Value}, Reached m vs →
      ∃ parents, m.memory.store.RootedBy parents ∧ (∀ v ∈ vs, v.RootedBy parents) ∧
        (∀ limits left e env, Chain parents env.inner env.outer →
          KeepsShape parents m (eval limits left e env m)) ∧
        (∀ limits e, KeepsShape parents m (evalGlobal limits e m)) ∧
        ∀ limits echo d, AddsAtMost (definedName d) parents m (define limits echo d m)) ∧
    (∀ {c : Collecting} {vs : List Value}, c.Reached vs →
      ∃ parents, c.store.RootedBy parents ∧ (∀ v ∈ vs, v.RootedBy parents) ∧
        (∀ limits left held e env, Chain parents env.inner env.outer →
          KeepsShapeInUse (env.frames ++ held) parents c (c.eval limits left held e env)) ∧
        (∀ limits held e, KeepsShapeInUse held parents c (c.evalGlobal limits held e)) ∧
        ∀ limits echo held d,
          AddsAtMostInUse (definedName d) held parents c (c.define limits echo held d)) := by
  constructor
  · intro m vs h
    obtain ⟨parents, hm, hvs⟩ := rootedBy_of_reached h
    refine ⟨parents, hm, hvs, ?_, ?_, ?_⟩
    · exact fun limits left e env henv => keepsShape_eval hm limits left e henv
    · exact fun limits e => keepsShape_evalGlobal hm limits e
    · exact fun limits echo d => addsAtMost_define hm limits echo d
  · intro c vs h
    obtain ⟨parents, hc, hvs⟩ := Collecting.rootedBy_of_reached h
    refine ⟨parents, hc, hvs, ?_, ?_, ?_⟩
    · exact fun limits left held e env henv => keepsShapeInUse_eval hc limits left held e henv
    · exact fun limits held e => keepsShapeInUse_evalGlobal hc limits held e
    · exact fun limits echo held d => addsAtMostInUse_define hc limits echo held d

/-- After a function that returns functions was defined and called, with a call that has too
many arguments in between; and then, with a collector that collects at every other frame,
after it was called once more while the function returned first was held no longer, which
empties the frame of the first call. -/
theorem frames_keep_their_shape_curried :
    let limits : Limits := ⟨9, 9⟩
    let d : Definition Exp Lambda := .function "k" ⟨0, ["x"], .lambda 0 ["y"] (.var "x")⟩
    let call : List Exp → Exp := fun args => .apply (.var "k") args
    let m₁ := (define limits .off d (.initial .empty)).state
    let m₂ := (evalGlobal limits (call [.literal (.bool true), .literal (.bool true)]) m₁).state
    let o := evalGlobal limits (call [.literal (.bool true)]) m₂
    let c₁ := ((Collecting.initial .empty ⟨[], 2, 1, fun _ => []⟩).define limits .off [] d).state
    let c₂ := (c₁.evalGlobal limits [] (call [.literal (.bool true)])).state
    let o' := c₂.evalGlobal limits [] (call [.literal (.bool false)])
    ((∃ vs, Reached o.state vs ∧ ∃ v, v ∈ vs ∧ v.closures.map (·.2) = [⟨1, [0]⟩]) ∧
      ∃ parents, o.state.memory.store.RootedBy parents ∧
        ∀ limits e, KeepsShape parents o.state (evalGlobal limits e o.state)) ∧
    ((c₂.store.frame 1).names = ["x"] ∧ (o'.state.store.frame 1).names = [] ∧
      (o'.state.store.frame 2).names = ["x"]) ∧
    ∃ vs parents, c₂.Reached vs ∧ KeepsShapeInUse [] parents c₂ o' := by
  intro limits d call m₁ m₂ o c₁ c₂ o'
  have h := Reached.eval limits (call [.literal (.bool true)])
    (.eval limits (call [.literal (.bool true), .literal (.bool true)])
      (.define limits .off d (.initial .empty)))
  have h' := Collecting.Reached.eval limits [] (call [.literal (.bool true)])
    (.define limits .off [] d (.initial .empty ⟨[], 2, 1, fun _ => []⟩))
  refine ⟨⟨⟨_, h, .closure ⟨1, ["y"], .var "x"⟩ ⟨1, [0]⟩, ?_, rfl⟩, ?_⟩, ?_, ?_⟩
  · exact List.mem_append_left _ (List.mem_singleton.2 rfl)
  · obtain ⟨parents, hm, -, -, hglobal, -⟩ := frames_keep_their_shape.1 h
    exact ⟨parents, hm, hglobal⟩
  · decide +kernel
  · obtain ⟨parents, -, -, -, hglobal, -⟩ := frames_keep_their_shape.2 h'
    exact ⟨_, parents, h', hglobal limits [] _⟩

end Primer.Functional
