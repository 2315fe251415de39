/-
Primer/Proofs/AssignmentFree.lean

Assignments are the only way to change a variable.

An expression without assignments may call functions, and it is enough that these
have no assignments either: then its evaluation, however it ends, leaves every
variable that there was before as it was (`only_assignments_change_variables`).  Two
things write to variables all the same.  Recursive bindings fill their frame, but
that frame is new; and the trace counts down, but only in variables that have the
name of the trace count.  A collector takes variables away, but only those of frames
that are out of use.

In the functional language functions are found in frames and passed around as
values, so an evaluation is put beside itself (`fixedCoupling`): states go together
if they are the same, all frames within `P` hold functions without assignments, and
nothing has changed in the frames of the store to begin with.  In the procedural
language the functions are those of the table, which no evaluation changes.
-/
import Primer.Proofs.DepthLimit
import Primer.Proofs.Functional.Collector
import Primer.Proofs.Functional.Untraced
import Primer.Proofs.Procedural.Untraced
import Primer.Proofs.Steady

namespace Primer

open Outcome

/-- Bindings that are the same without a name bind every other name to the same. -/
theorem Bindings.get?_eq_of_without_eq {α : Type} {x y : String} {bs bs' : Bindings α}
    (h : bs.without x = bs'.without x) (hy : y ≠ x) : bs.get? y = bs'.get? y := by
  rw [← Bindings.get?_without_ne hy bs, h, Bindings.get?_without_ne hy]

/-! ### The functional language -/

namespace Functional

namespace Exp

mutual

/-- There is no assignment anywhere in an expression. -/
def assignmentFree : Exp → Bool
  | literal _ => true
  | var _ => true
  | set _ _ => false
  | cond test yes no => assignmentFree test && assignmentFree yes && assignmentFree no
  | loop test body => assignmentFree test && assignmentFree body
  | block parts => assignmentFreeEach parts
  | apply callee args => assignmentFree callee && assignmentFreeEach args
  | lambda _ _ body => assignmentFree body
  | bind _ bindings body => assignmentFreeInitial bindings && assignmentFree body

def assignmentFreeEach : List Exp → Bool
  | [] => true
  | e :: es => assignmentFree e && assignmentFreeEach es

/-- There is no assignment in initial values. -/
def assignmentFreeInitial : List (String × Exp) → Bool
  | [] => true
  | (_, e) :: bs => assignmentFree e && assignmentFreeInitial bs

end

theorem assignmentFreeEach_iff {es : List Exp} :
    assignmentFreeEach es = true ↔ ∀ e ∈ es, e.assignmentFree = true := by
  induction es with
  | nil => simp [assignmentFreeEach]
  | cons e es ih => simp [assignmentFreeEach, ih]

theorem assignmentFreeInitial_iff {bs : List (String × Exp)} :
    assignmentFreeInitial bs = true ↔ ∀ b ∈ bs, b.2.assignmentFree = true := by
  induction bs with
  | nil => simp [assignmentFreeInitial]
  | cons b bs ih => simp [assignmentFreeInitial, ih]

theorem assignmentFree_part {e part : Exp} (he : e.assignmentFree = true)
    (h : part ∈ e.parts) : part.assignmentFree = true := by
  cases e with
  | literal d => cases h
  | var y => cases h
  | lambda label formals body => cases h
  | set y e => cases he
  | cond test yes no =>
    simp only [assignmentFree, Bool.and_eq_true] at he
    simp only [parts, List.mem_cons, List.not_mem_nil, or_false] at h
    rcases h with rfl | rfl | rfl
    · exact he.1.1
    · exact he.1.2
    · exact he.2
  | loop test body =>
    simp only [assignmentFree, Bool.and_eq_true] at he
    simp only [parts, List.mem_cons, List.not_mem_nil, or_false] at h
    rcases h with rfl | rfl
    · exact he.1
    · exact he.2
  | block parts => exact assignmentFreeEach_iff.1 he part h
  | apply callee args =>
    simp only [assignmentFree, Bool.and_eq_true] at he
    rcases List.mem_cons.1 h with rfl | h
    · exact he.1
    · exact assignmentFreeEach_iff.1 he.2 part h
  | bind kind bindings body =>
    simp only [assignmentFree, Bool.and_eq_true, assignmentFreeInitial_iff] at he
    cases kind with
    | plain =>
      obtain ⟨b, hb, rfl⟩ := List.mem_map.1 h
      exact he.1 b hb
    | sequential =>
      cases bindings with
      | nil =>
        obtain rfl : part = body := by simpa [parts] using h
        exact he.2
      | cons b bs =>
        obtain rfl : part = b.2 := by simpa [parts] using h
        exact he.1 b List.mem_cons_self
    | recursive => cases h

theorem assignmentFree_body {e body : Exp} {names : List String} (he : e.assignmentFree = true)
    (h : (names, body) ∈ e.bodies) : body.assignmentFree = true := by
  cases e with
  | lambda label formals body =>
    obtain ⟨-, rfl⟩ : names = formals ∧ _ = body := by simpa [bodies] using h
    exact he
  | bind kind bindings body =>
    simp only [assignmentFree, Bool.and_eq_true, assignmentFreeInitial_iff] at he
    cases kind with
    | plain =>
      obtain ⟨-, rfl⟩ : names = bindings.map (·.1) ∧ _ = body := by simpa [bodies] using h
      exact he.2
    | sequential =>
      cases bindings with
      | nil => cases h
      | cons b bs =>
        -- the bindings that are left and the body
        obtain ⟨-, rfl⟩ : names = [b.1] ∧ _ = bind .sequential bs body := by
          simpa [bodies] using h
        simp only [assignmentFree, Bool.and_eq_true, assignmentFreeInitial_iff]
        exact ⟨fun b' hb' => he.1 b' (List.mem_cons_of_mem b hb'), he.2⟩
    | recursive =>
      simp only [bodies, List.mem_cons, List.mem_map, Prod.mk.injEq] at h
      rcases h with ⟨-, rfl⟩ | ⟨b, hb, -, rfl⟩
      · exact he.2
      · exact he.1 b hb
  | _ => cases h

end Exp

variable {P : FrameId → Prop} {before : Store} {m m' : State} {env : Env}

/-- An expression without assignments, in an environment within `P` that is the same on
both sides. -/
def Harmless (P : FrameId → Prop) (e : Exp) (env env' : Env) : Prop :=
  env = env' ∧ e.assignmentFree = true ∧ ∀ id ∈ env.frames, P id

/-- All frames within `P` hold functions without assignments, over environments within
`P`, and so does every frame to come.  The frames of the store `before` are as they
were, but for the trace count. -/
structure Store.Fixed (P : FrameId → Prop) (before s : Store) : Prop where
  later : ∀ id, s.frames.size ≤ id → P id
  values : ∀ id, P id → ∀ b ∈ s.frame id,
    Value.Alike True (fun f => Harmless P f.toExp) b.2 b.2
  size : before.frames.size ≤ s.frames.size
  same : ∀ id, id < before.frames.size →
    (s.frame id).without Trace.countName = (before.frame id).without Trace.countName

/-- An evaluation beside itself, from a store that is fixed. -/
def fixedCoupling (P : FrameId → Prop) (before : Store) : Coupling OneWorld where
  state _ m m' := m = m' ∧ Store.Fixed P before m.memory.store
  scope _ := Harmless P
  hole := True
  grow _ _ := .only

theorem fixedCoupling_value_eq {v v' : Value} (h : (fixedCoupling P before).value .only v v') :
    v = v' :=
  Value.Alike.eq (fun _ _ _ hf => hf.1) h

namespace Store.Fixed

variable {s : Store}

theorem extend (h : Fixed P before s) (env : Env) {pairs : List (String × Value)}
    (hpairs : ∀ b ∈ pairs, (fixedCoupling P before).value .only b.2 b.2) :
    Fixed P before (s.extend env pairs).2 where
  later id hid := by
    apply h.later
    rw [size_extend] at hid
    omega
  values id hid b hb := by
    rw [frame_extend_eq] at hb
    split at hb
    · exact hpairs b (Bindings.mem_of_mem_ofList hb)
    · exact h.values id hid b hb
  size := by
    rw [size_extend]
    exact Nat.le_succ_of_le h.size
  same id hid := by
    rw [frame_extend (Nat.lt_of_lt_of_le hid h.size)]
    exact h.same id hid

/-- The trace count may change. -/
theorem spend (h : Fixed P before s) (id : FrameId) (n : Number) :
    Fixed P before (s.update id Trace.countName (.number n)) where
  later other hother := h.later other (by rwa [size_update] at hother)
  values other hother b hb := by
    rw [frame_update_eq] at hb
    split at hb
    · next hid =>
      rcases Bindings.mem_set hb with hb | rfl
      · exact h.values id (hid.1 ▸ hother) b hb
      · exact .number n
    · exact h.values other hother b hb
  size := by
    rw [size_update]
    exact h.size
  same other hother := by
    rw [← h.same other hother, ← frame_without, without_update_self, frame_without]

/-- What is looked up within `P` is like itself. -/
theorem get? (h : Fixed P before s) (henv : ∀ id ∈ env.frames, P id) (x : String) :
    Option.Rel ((fixedCoupling P before).value .only) (s.get? env x) (s.get? env x) := by
  cases hv : s.get? env x with
  | none => exact .none
  | some v =>
    obtain ⟨id, hid, hframe⟩ := s.getIn_mem hv
    exact .some (h.values id (henv id hid) _ (Bindings.mem_of_get? hframe))

end Store.Fixed

theorem fixedCoupling_sameOnBoth : Trace.SameOnBoth (fixedCoupling P before).state where
  console h := by rw [h.1]
  indent h := by rw [h.1]
  withDiag h diag indent := ⟨by rw [h.1], h.2⟩

/-- An evaluation without assignments keeps the store fixed. -/
theorem fixedCoupling_simulates (P : FrameId → Prop) (before : Store) :
    (fixedCoupling P before).Simulates where
  le_grow _ _ := le_rfl
  scope_mono _ h := h
  scope_part h hpart := ⟨h.1, Exp.assignmentFree_part h.2.1 hpart, h.2.2⟩
  scope_body := by
    rintro w e env _ names body m _ ⟨rfl, hm⟩ ⟨rfl, hfree, henv⟩ hbody
    refine ⟨rfl, Exp.assignmentFree_body hfree hbody, fun id hid => ?_⟩
    -- the new frame is one of those that did not exist yet
    rcases List.mem_cons.1 hid with rfl | hid
    · exact hm.later _ (Nat.le_refl _)
    · exact henv id hid
  extend := by
    rintro w e env _ names body m _ vs vs' ⟨rfl, hm⟩ ⟨rfl, -, -⟩ - - hvs
    have heq : vs = vs' := by
      rw [← List.forall₂_eq_eq_eq]
      exact hvs.imp fun _ _ => fixedCoupling_value_eq
    subst heq
    refine ⟨rfl, hm.extend env fun b hb => ?_⟩
    exact List.forall₂_same.1 hvs b.2 (List.of_mem_zip hb).2
  placeholders := by
    rintro w env _ bindings body m _ ⟨rfl, hm⟩ ⟨rfl, -, -⟩
    refine ⟨.only, le_rfl, rfl, hm.extend env fun b hb => ?_⟩
    obtain ⟨_, -, rfl⟩ := List.mem_map.1 hb
    exact .unspecified trivial
  var := by
    rintro w x env _ m _ ⟨rfl, hm⟩ ⟨rfl, -, henv⟩
    exact hm.get? henv x
  set := by
    rintro w x e env env' m m' v v' - ⟨-, hfree, -⟩
    cases hfree
  out_eq h := by rw [h.1]
  withOut h out := ⟨by rw [h.1], h.2⟩
  around := by
    rintro w callee args env _ m _ call run run' ⟨rfl, hm⟩ ⟨rfl, -, henv⟩ hrun
    refine Coupling.match_around fixedCoupling_sameOnBoth (hm.get? henv _) ?_
      ⟨rfl, hm⟩ (hrun w le_rfl)
    rintro n t _ ⟨rfl, ht⟩
    cases t.memory.store.holder? env Trace.countName with
    | none => exact .none
    | some id => exact .some ⟨rfl, ht.spend id n⟩

/-- An expression without assignments, in an environment that gives it no function with
an assignment to call. -/
structure AssignmentFree (e : Exp) (env : Env) (m : State) : Prop where
  exp : e.assignmentFree = true
  functions : ∀ id, m.memory.store.Reachable env.frames id → ∀ b ∈ m.memory.store.frame id,
    ∀ c ∈ b.2.closures, c.1.body.assignmentFree = true

theorem AssignmentFree.fixed {e : Exp} (h : AssignmentFree e env m) :
    Store.Fixed (Within m env) m.memory.store m.memory.store where
  later _ hid := .inr hid
  values id hid b hb := by
    refine Value.Alike.of_closures trivial _ fun c hc => ?_
    -- a frame that does not exist yet holds nothing
    rcases hid with hid | hid
    · exact ⟨rfl, h.functions id hid b hb c hc, fun id' hid' => .inl (.captured hid hb hc hid')⟩
    · rw [Store.frame_of_size_le _ hid] at hb
      cases hb
  size := Nat.le_refl _
  same _ _ := rfl

/-- Every variable of every frame that there was before is as it was, the trace count
apart. -/
structure KeepsVariables (m m' : State) : Prop where
  frames : ∀ id, id < m.memory.store.frames.size → ∀ x, x ≠ Trace.countName →
    (m'.memory.store.frame id).get? x = (m.memory.store.frame id).get? x
  globals : ∀ x v, x ≠ Trace.countName → m.global? x = some v → m'.global? x = some v

theorem Store.Fixed.keepsVariables (h : Store.Fixed P m.memory.store m'.memory.store) :
    KeepsVariables m m' where
  frames id hid _ hx := Bindings.get?_eq_of_without_eq (h.same id hid) hx
  globals x v hx hv := by
    -- a store that binds a global name has a global frame
    have hsize : 0 < m.memory.store.frames.size := by
      by_contra hsize
      have hempty : m.memory.store.frame 0 = [] := m.memory.store.frame_of_size_le (by omega)
      simp [State.global?, Store.get?, Env.globals, Env.frames, Store.getIn, hempty,
        Bindings.get?] at hv
    have hframe := Bindings.get?_eq_of_without_eq (h.same 0 hsize) hx
    rw [← hv]
    show m'.memory.store.getIn x [0] = m.memory.store.getIn x [0]
    rw [Store.getIn, Store.getIn, hframe]
    rfl

/-- Without assignments all variables keep their values. -/
theorem AssignmentFree.keepsVariables {e : Exp} (h : AssignmentFree e env m) (l : Limits)
    (left : Nat) : KeepsVariables m (eval l left e env m).state := by
  have hmatch := (fixedCoupling_simulates (Within m env) m.memory.store).eval (w := .only) l
    left e ⟨rfl, h.fixed⟩ ⟨rfl, h.exp, fun id hid => .inl (.root hid)⟩
  obtain ⟨-, -, -, hfixed⟩ := hmatch.state
  exact hfixed.keepsVariables

/-- Every variable is as it was, the trace count apart, in every frame that there was before
and that has not been let go of since.  The globals are never let go of. -/
structure KeepsVariablesInUse (held : List FrameId) (m m' : State) : Prop where
  frames : ∀ id, id < m.memory.store.frames.size →
    (∀ x, x ≠ Trace.countName →
      (m'.memory.store.frame id).get? x = (m.memory.store.frame id).get? x) ∨ LetGo held m' id
  globals : ∀ x v, x ≠ Trace.countName → m.global? x = some v → m'.global? x = some v

theorem KeepsVariables.inUse {held : List FrameId} {m₁ : State} (h : KeepsVariables m m₁)
    (hsame : SameInUse held m' m₁) : KeepsVariablesInUse held m m' where
  frames id hid := by
    refine (hsame.eq_or_letGo id).imp_left fun hframe x hx => ?_
    rw [hframe]
    exact h.frames id hid x hx
  globals x v hx hv := by
    have hlookup := (hsame.globals.lookup (List.subset_append_left _ _) x).1
    exact hlookup.trans (h.globals x v hx hv)

/-- Without assignments all variables of frames in use keep their values. -/
theorem AssignmentFree.keepsVariablesInUse {e : Exp} {c : Collecting}
    (h : AssignmentFree e env c.plain) (l : Limits) (left : Nat) (held : List FrameId) :
    KeepsVariablesInUse (capturedAtEnd (c.eval l left held e env) ++ (env.frames ++ held)) c.plain
      (c.eval l left held e env).state.plain :=
  (h.keepsVariables l left).inUse
    (alongside_eval l left held e env c c.plain (.refl _ _)).atEnd.2

end Functional

/-! ### The procedural language -/

namespace Procedural

namespace Exp

mutual

/-- There is no assignment anywhere in an expression. -/
def assignmentFree : Exp → Bool
  | literal _ => true
  | var _ => true
  | set _ _ => false
  | cond test yes no => assignmentFree test && assignmentFree yes && assignmentFree no
  | loop test body => assignmentFree test && assignmentFree body
  | block parts => assignmentFreeEach parts
  | call _ args => assignmentFreeEach args

def assignmentFreeEach : List Exp → Bool
  | [] => true
  | e :: es => assignmentFree e && assignmentFreeEach es

end

theorem assignmentFreeEach_iff {es : List Exp} :
    assignmentFreeEach es = true ↔ ∀ e ∈ es, e.assignmentFree = true := by
  induction es with
  | nil => simp [assignmentFreeEach]
  | cons e es ih => simp [assignmentFreeEach, ih]

end Exp

/-- No function of the table has an assignment. -/
def Memory.AssignmentFree (m : Memory) : Prop :=
  ∀ name p, m.functions.get? name = some (.procedure p) → p.body.assignmentFree = true

/-- The memory is as it was, but for the trace count. -/
def State.SameAs (before : Memory) (m : State) : Prop := m.memory.untraced = before.untraced

variable {before : Memory} {m : State}

theorem State.SameAs.functions_eq (h : State.SameAs before m) :
    m.memory.functions = before.functions := by
  show m.memory.untraced.functions = before.untraced.functions
  rw [show m.memory.untraced = before.untraced from h]

/-- Evaluations in other scopes leave the globals as they were, and the scopes of now are
those of before in the end. -/
theorem keeps_sameAs_inScopes {α : Type} {run : State → Outcome State α}
    (hrun : ∀ other : Memory, other.functions = before.functions → Keeps (State.SameAs other) run)
    (scopes : Scopes) :
    Keeps (State.SameAs before) fun m => State.inScopes m scopes run := by
  intro m hm
  have h := hrun { m.memory with scopes := scopes } hm.functions_eq
    { m with memory := { m.memory with scopes := scopes } } rfl
  have hglobals := congrArg Memory.globals h
  have hfunctions := congrArg Memory.functions h
  simp only [State.inScopes, state_mapState]
  refine Eq.trans ?_ hm
  exact congrArg₂ (Memory.mk m.memory.scopes.untraced) hglobals hfunctions

theorem keeps_sameAs_applyFunction {body : Exp → State → Outcome State Number}
    (hbody : ∀ e, e.assignmentFree = true → ∀ other : Memory,
      other.functions = before.functions → Keeps (State.SameAs other) (body e))
    (call : Exp) {f : Function} (hf : ∀ p, f = .procedure p → p.body.assignmentFree = true)
    (args : List Number) : Keeps (State.SameAs before) (applyFunction body call f args) := by
  intro m hm
  cases f with
  | procedure p =>
    simp only [applyFunction]
    split
    · exact keeps_sameAs_inScopes (hbody p.body (hf p rfl)) (.ofCall p args) m hm
    · exact hm
  | primitive p =>
    rw [applyFunction, applyPrimitive, state_mapError, state_mapState]
    exact hm

/-- An evaluation without assignments keeps the memory, but for the trace count. -/
theorem keeps_sameAs_eval (l : Limits) (left : Nat) {e : Exp} (he : e.assignmentFree = true)
    (hbefore : before.AssignmentFree) : Keeps (State.SameAs before) (eval l left e) := by
  induction left generalizing e before with
  | zero => exact .fault _
  | succ left ih =>
    cases e with
    | literal n => exact .value n
    | var x =>
      intro m hm
      simp only [eval]
      split <;> exact hm
    | set x e => cases he
    | cond test yes no =>
      simp only [Exp.assignmentFree, Bool.and_eq_true] at he
      refine (ih he.1.1 hbefore).andThen fun n => ?_
      cases isTrue n with
      | true => exact ih he.1.2 hbefore
      | false => exact ih he.2 hbefore
    | loop test body =>
      simp only [Exp.assignmentFree, Bool.and_eq_true] at he
      exact .evalWhile (ih he.1 hbefore) (ih he.2 hbefore) l.turns
    | block parts =>
      exact .evalLast _ fun e hmem => ih (Exp.assignmentFreeEach_iff.1 he e hmem) hbefore
    | call function args =>
      intro m hm
      simp only [eval]
      split
      · exact hm
      · next f hf =>
        have hargs : ∀ e ∈ args, Keeps (State.SameAs before) (eval l left e) :=
          fun e hmem => ih (Exp.assignmentFreeEach_iff.1 he e hmem) hbefore
        refine (Keeps.evalEach hargs).andThen (fun ns m => ?_) m hm
        have hfree : ∀ p, f = .procedure p → p.body.assignmentFree = true := by
          rintro p rfl
          exact hbefore function p (hm.functions_eq ▸ hf)
        refine Trace.keeps_around (P := fun memory => memory.untraced = before.untraced)
          (fun n m hm => ?_) (keeps_sameAs_applyFunction (fun e he other hother => ?_) _ hfree ns) m
        · exact (m.memory.untraced_setTraceCount n).trans hm
        · apply ih he
          intro name p hp
          exact hbefore name p (hother ▸ hp)

/-- An expression without assignments, with a function table in which no function has
one. -/
structure AssignmentFree (e : Exp) (m : State) : Prop where
  exp : e.assignmentFree = true
  functions : m.memory.AssignmentFree

/-- Every variable is as it was, the trace count apart. -/
structure KeepsVariables (m m' : State) : Prop where
  locals : ∀ x, x ≠ Trace.countName →
    m'.memory.scopes.locals.get? x = m.memory.scopes.locals.get? x
  formals : ∀ x, x ≠ Trace.countName →
    m'.memory.scopes.formals.get? x = m.memory.scopes.formals.get? x
  globals : ∀ x, x ≠ Trace.countName → m'.global? x = m.global? x

/-- Without assignments all variables keep their values. -/
theorem AssignmentFree.keepsVariables {e : Exp} (h : AssignmentFree e m) (l : Limits)
    (left : Nat) : KeepsVariables m (eval l left e m).state := by
  have hsame : State.SameAs m.memory (eval l left e m).state :=
    keeps_sameAs_eval l left h.exp h.functions m rfl
  refine ⟨fun x hx => ?_, fun x hx => ?_, fun x hx => ?_⟩
  · exact Bindings.get?_eq_of_without_eq (congrArg (·.scopes.locals) hsame) hx
  · exact Bindings.get?_eq_of_without_eq (congrArg (·.scopes.formals) hsame) hx
  · exact Bindings.get?_eq_of_without_eq (congrArg (·.globals) hsame) hx

end Procedural

/-! ### Both languages -/

/-- **Assignments are the only way to change a variable.**  Let an expression have no
assignment, and no function that can be called in it: no closure that can be reached
from its environment, or no function of the table.  Then its evaluation, whether it
ends in a value, in an error or not at all, leaves every variable of every frame that
there was before, and every global variable, as it was; only the trace count may be
another.  With a collector this holds of every frame that is not let go of, and a frame
is let go of only when it can be reached neither from the globals nor from the
environment, from what is held or from the value at the end. -/
theorem only_assignments_change_variables (depth start turns : Nat) :
    (∀ (e : Functional.Exp) (env : Functional.Env) (m : Functional.State),
      Functional.AssignmentFree e env m →
        Functional.KeepsVariables m (Functional.evalFrom depth start e env m turns).state) ∧
    (∀ (e : Functional.Exp) (env : Functional.Env) (held : List Functional.FrameId)
      (c : Functional.Collecting), Functional.AssignmentFree e env c.plain →
        let o := c.eval ⟨depth, turns⟩ (depth - start) held e env
        Functional.KeepsVariablesInUse (Functional.capturedAtEnd o ++ (env.frames ++ held)) c.plain
          o.state.plain) ∧
    (∀ (e : Procedural.Exp) (m : Procedural.State), Procedural.AssignmentFree e m →
      Procedural.KeepsVariables m (Procedural.evalFrom depth start e m turns).state) :=
  ⟨fun _ _ _ h => h.keepsVariables ⟨depth, turns⟩ _,
    fun _ _ held _ h => h.keepsVariablesInUse ⟨depth, turns⟩ _ held,
    fun _ _ h => h.keepsVariables ⟨depth, turns⟩ _⟩

/-- A recursive binding that takes apart a list with a function in it, and a function that
shadows a global variable, both under the trace.  With a collector that collects at every
frame, the binding takes away the variable of a frame that only its own closure leads to,
and leaves the one that the list leads to. -/
theorem only_assignments_change_variables_recursion :
    let g : Functional.Lambda := ⟨0, ["n"], .apply (.var "cdr") [.var "n"]⟩
    let globals : Functional.Frame := [("cdr", .primitive .cdr), ("pair?", .primitive .isPair),
      ("p", .pair (.closure g ⟨1, [0]⟩) .nil), (Trace.countName, .number (.ofBool true))]
    let m : Functional.State := ⟨⟨⟨#[globals, [("n", .number .zero)],
      [("self", .closure g ⟨2, [0]⟩)]]⟩, 2⟩, .empty, 0⟩
    let c : Functional.Collecting :=
      ⟨⟨m.memory, ⟨[1, 2], 1, 1, fun _ => []⟩⟩, m.console, m.indent⟩
    let e : Functional.Exp := .bind .recursive
      [("down", .lambda 1 ["n"] (.cond (.apply (.var "pair?") [.var "n"])
        (.apply (.var "down") [.apply (.var "cdr") [.var "n"]]) (.var "n")))]
      (.apply (.var "down") [.var "p"])
    let o := c.eval ⟨9, 5⟩ 9 [] e .globals
    let f : Procedural.Procedure := ⟨["x"], ["k"], .call "f" [.call "+" [.var "x", .var "k"]]⟩
    let m' : Procedural.State := ⟨⟨⟨[("k", .ofBool true)], []⟩,
      [("x", .zero), (Trace.countName, .ofBool true)],
      [("f", .procedure f), ("+", .primitive .add)]⟩, .empty, 0⟩
    let e' : Procedural.Exp := .call "f" [.var "x"]
    (Functional.AssignmentFree e .globals m ∧
      Functional.KeepsVariables m (Functional.evalFrom 9 0 e .globals m 5).state) ∧
    (Functional.KeepsVariablesInUse (Functional.capturedAtEnd o ++ Functional.Env.globals.frames) m
        o.state.plain ∧
      (o.state.store.frame 1).names = ["n"] ∧ (o.state.store.frame 2).names = []) ∧
    Procedural.AssignmentFree e' m' ∧
      Procedural.KeepsVariables m' (Procedural.evalFrom 9 0 e' m' 5).state := by
  intro g globals m c e o f m' e'
  have h : Functional.AssignmentFree e .globals m := by
    refine ⟨rfl, fun id _ b hb closure hc => ?_⟩
    have hglobals : ∀ b ∈ globals, ∀ closure ∈ b.2.closures,
        closure.1.body.assignmentFree = true := by
      simp [globals, Functional.Value.closures, g, Functional.Exp.assignmentFree,
        Functional.Exp.assignmentFreeEach]
    rcases id with _ | _ | _ | id
    · exact hglobals b hb closure hc
    · obtain rfl := List.mem_singleton.1 hb
      cases hc
    · obtain rfl := List.mem_singleton.1 hb
      obtain rfl := List.mem_singleton.1 hc
      rfl
    · cases hb
  have h' : Procedural.AssignmentFree e' m' := by
    refine ⟨rfl, fun name q hq => ?_⟩
    rcases List.mem_cons.1 (Bindings.mem_of_get? hq) with heq | hmem
    · cases heq
      rfl
    · cases List.mem_singleton.1 hmem
  obtain ⟨hplain, hcollecting, hprocedural⟩ := only_assignments_change_variables 9 0 5
  exact ⟨⟨h, hplain e .globals m h⟩, ⟨hcollecting e .globals [] c h, by decide +kernel⟩,
    h', hprocedural e' m' h'⟩

end Primer
