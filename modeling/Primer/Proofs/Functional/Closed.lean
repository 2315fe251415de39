/-
Primer/Proofs/Functional/Closed.lean

Frames that exist.

Environments refer to frames by number, so a store could hold a closure over a
frame that it does not have.  No interpreter gets there: a new one is
`WellFormed`, and each form that it carries out, in whatever way this ends,
leaves it well-formed (`wellFormed_run`).

Evaluation need not be followed once more for this.  Put beside itself inside
one more frame it keeps two stores aligned, and aligned stores hold closures
over their own frames only (`Aligned.closed`).
-/
import Primer.Functional.Interpreter
import Primer.Proofs.Functional.Scoping

namespace Primer

theorem Bindings.Paired.exists_of_mem {α β : Type} {Q : String → α → β → Prop} {bs : Bindings α}
    {bs' : Bindings β} (h : Paired Q bs bs') {b : String × α} (hb : b ∈ bs) :
    ∃ a', Q b.1 b.2 a' := by
  induction h with
  | nil => cases hb
  | cons hc _ ih =>
    rcases List.mem_cons.1 hb with rfl | hb
    · exact ⟨_, hc.2⟩
    · exact ih hb

namespace Functional

open Outcome

/-- A value all of whose closures capture some of the first `n` frames. -/
def Value.Below (n : Nat) (v : Value) : Prop :=
  ∀ c ∈ v.closures, ∀ id ∈ c.2.frames, id < n

section

variable {n : Nat} {extra : List (String × Value)} {w : Layout n} {m m' : State}

/-- Values that go together capture frames that exist. -/
theorem Value.Below.of_alike {v v' : Value} (h : SameVisibly extra w v v') :
    v.Below w.size := by
  intro c hc
  obtain ⟨env', hscope⟩ := Value.Alike.exists_of_mem_closures h hc
  exact hscope.bound

theorem Aligned.closed (hm : Aligned extra w m m') : m.memory.store.Closed := by
  intro id b hb
  obtain ⟨v', hv⟩ := (hm.frames id).exists_of_mem hb
  rw [hm.size]
  exact Value.Below.of_alike hv

end

/-! ### States of an interpreter -/

/-- What is printed when a name is bound has no effect on the frames. -/
theorem store_bindAndEcho (echo : Echo) (name : String) (v : Value) (line : Unit → String)
    (m : State) : (bindAndEcho echo name v line m).state.memory.store
      = m.memory.store.define .globals name v := by
  unfold bindAndEcho Machine.echo
  cases echo with
  | off => rfl
  | on =>
    show (((m.defineGlobal name v).printLine line).map fun _ => v).state.memory.store = _
    rw [state_map, Machine.printLine, state_mapState]
    rfl

/-- Closures capture frames that exist, and there is a global frame. -/
structure State.WellFormed (m : State) : Prop where
  closed : m.memory.store.Closed
  globals : 0 < m.memory.store.frames.size

namespace State.WellFormed

variable {m : State}

/-- What depends on the frames only. -/
theorem of_store_eq {m' : State} (hm : m.WellFormed) (h : m'.memory.store = m.memory.store) :
    m'.WellFormed := by
  refine ⟨?_, ?_⟩
  · rw [h]
    exact hm.closed
  · rw [h]
    exact hm.globals

/-- Evaluation in frames that exist keeps closures in frames that exist, and so is its
value. -/
theorem eval (hm : m.WellFormed) (limits : Limits) (left : Nat) (e : Exp) {env : Env}
    (henv : ∀ id ∈ env.frames, id < m.memory.store.frames.size) :
    (eval limits left e env m).state.WellFormed ∧
      ∀ v s, Functional.eval limits left e env m = .value v s →
        v.Below s.memory.store.frames.size := by
  -- beside itself, inside a frame that binds nothing
  have hmatch := (scopingCoupling_simulates _ []).eval limits left e
    (aligned_extend hm.closed env []) (visible_added _ henv (by simp))
  have hsize : ∀ {w m₁ m₂}, m.memory.store.layout ≤ w → Aligned [] w m₁ m₂ →
      m₁.WellFormed := by
    intro w m₁ m₂ hw hs
    refine ⟨hs.closed, ?_⟩
    rw [hs.size]
    refine Nat.lt_of_lt_of_le ?_ hw.1
    rw [Store.size_layout]
    exact hm.globals
  generalize Functional.eval limits left e env m = o at hmatch ⊢
  generalize Functional.eval limits left e _ (m.extend env []).2 = o' at hmatch
  cases hmatch with
  | @value w a _ s _ hw hs hv =>
    refine ⟨hsize hw hs, fun v s' heq => ?_⟩
    cases heq
    rw [hs.size]
    exact .of_alike hv
  | fault hw hs => exact ⟨hsize hw hs, fun v s heq => by cases heq⟩
  | unfinished hw hs => exact ⟨hsize hw hs, fun v s heq => by cases heq⟩

/-- Binding a global name to a value over frames that exist. -/
theorem defineGlobal (hm : m.WellFormed) (name : String) {v : Value}
    (hv : v.Below m.memory.store.frames.size) : (m.defineGlobal name v).WellFormed := by
  have hsize : (m.defineGlobal name v).memory.store.frames.size = m.memory.store.frames.size :=
    Store.size_update ..
  refine ⟨fun id b hb => ?_, by rw [hsize]; exact hm.globals⟩
  rw [hsize]
  rw [show (m.defineGlobal name v).memory.store.frame id = _ from Store.frame_update_eq ..] at hb
  split at hb
  · rcases Bindings.mem_set hb with hb | rfl
    · exact hm.closed _ b hb
    · exact hv
  · exact hm.closed id b hb

theorem bindAndEcho (hm : m.WellFormed) (echo : Echo) (name : String) {v : Value}
    (hv : v.Below m.memory.store.frames.size) (line : Unit → String) :
    (bindAndEcho echo name v line m).state.WellFormed :=
  of_store_eq (hm.defineGlobal name hv) (store_bindAndEcho echo name v line m)

theorem evalGlobal (hm : m.WellFormed) (limits : Limits) (e : Exp) :
    (evalGlobal limits e m).state.WellFormed ∧
      ∀ v s, Functional.evalGlobal limits e m = .value v s →
        v.Below s.memory.store.frames.size := by
  have hloaded : (m.load e).2.WellFormed := hm.of_store_eq rfl
  exact hloaded.eval limits limits.depth (m.load e).1 fun id hid => by
    obtain rfl := List.mem_singleton.1 hid
    exact hloaded.globals

end State.WellFormed

/-- A definition, however it ends, leaves an interpreter well-formed. -/
theorem wellFormed_define {m : State} (hm : m.WellFormed) (limits : Limits) (echo : Echo)
    (d : Definition Exp Lambda) : (define limits echo d m).state.WellFormed := by
  -- a global name bound to the value of an expression
  have hbind : ∀ (e : Exp) (name : String) (line : Value → Unit → String),
      ((evalGlobal limits e m).andThen fun v m =>
        bindAndEcho echo name v (line v) m).state.WellFormed := by
    intro e name line
    obtain ⟨hstate, hvalue⟩ := hm.evalGlobal limits e
    cases heval : evalGlobal limits e m with
    | value v s =>
      rw [heval] at hstate
      exact hstate.bindAndEcho echo name (hvalue v s heval) (line v)
    | fault err s =>
      rw [heval] at hstate
      exact hstate
    | unfinished s =>
      rw [heval] at hstate
      exact hstate
  cases d with
  | val name e => exact hbind e name fun v _ => echoText name v
  | exp e => exact hbind e itName fun v _ => v.text
  | function name f =>
    rw [define]
    cases repeated? f.formals with
    | some formal => exact hm
    | none =>
      have hloaded : (m.loadLambda f).2.WellFormed := hm.of_store_eq rfl
      refine hloaded.bindAndEcho echo name ?_ fun _ => name
      intro c hc id hid
      obtain rfl := List.mem_singleton.1 hc
      obtain rfl := List.mem_singleton.1 hid
      exact hloaded.globals

/-- A new interpreter has nothing in its frames but the primitives. -/
theorem primitive_of_mem_initial {id : FrameId} {b : String × Value}
    (hb : b ∈ Memory.initial.store.frame id) : ∃ p, b.2 = .primitive p := by
  have hframe : b ∈ initialFrame := by
    cases id with
    | zero => exact hb
    | succ id =>
      rw [Store.frame_of_size_le _ (Nat.succ_le_succ (Nat.zero_le id))] at hb
      cases hb
  obtain ⟨p, -, rfl⟩ := List.mem_map.1 hframe
  exact ⟨p, rfl⟩

/-- A new interpreter is well-formed. -/
theorem wellFormed_initial (console : Console) : (State.initial console).WellFormed := by
  refine ⟨fun id b hb c hc => ?_, Nat.zero_lt_one⟩
  obtain ⟨p, hp⟩ := primitive_of_mem_initial hb
  rw [hp] at hc
  cases hc

/-- **Frames that exist.**  An interpreter that has carried out any definitions is
well-formed. -/
theorem wellFormed_run (limits : Limits) (echo : Echo) (console : Console)
    (ds : List (Definition Exp Lambda)) :
    (ds.foldl (fun m d => (define limits echo d m).state) (.initial console)).WellFormed := by
  suffices h : ∀ m : State, m.WellFormed →
      (ds.foldl (fun m d => (define limits echo d m).state) m).WellFormed from
    h _ (wellFormed_initial console)
  induction ds with
  | nil => exact fun m hm => hm
  | cons d ds ih => exact fun m hm => ih _ (wellFormed_define hm limits echo d)

end Functional

end Primer
