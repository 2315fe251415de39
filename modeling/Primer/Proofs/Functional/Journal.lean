/-
Primer/Proofs/Functional/Journal.lean

Evaluation with a journal.

`watch` evaluates as `eval` does and notes what happens: where an evaluation
begins and what it ends in, every look-up and every assignment, every call with
its arguments, and every frame that is made, with its names and their values.
The frame of recursive bindings is noted twice, when it is reserved with
placeholders and when it is filled.

A journal accounts for the store (`Recorded`).  Every new frame was noted when it
was made.  What a look-up finds under a name of recursive bindings is the
placeholder, the value that the frame was filled with, or one that was assigned
to the name (`Recorded.read_of_reserved`).
-/
import Primer.Functional.Interpreter
import Primer.Proofs.Frames
import Primer.Proofs.Functional.Simulation
import Primer.Proofs.Journal
import Primer.Proofs.Sessions

namespace Primer.Functional

open Outcome

/-! ### Events -/

/-- What happens in the course of an evaluation.  A store is the one right after the
event. -/
inductive Event where
  | began (e : Exp) (env : Env) (s : Store)
  | ended (e : Exp) (v : Value)
  /-- a name was looked up and found in a frame -/
  | read (id : FrameId) (x : String) (v : Value)
  /-- a name of a frame was given another value -/
  | assigned (id : FrameId) (x : String) (v : Value)
  /-- a function is about to be called -/
  | applied (call : Exp) (f : Value) (args : List Value)
  /-- a frame was made, the innermost one of `inner` -/
  | bound (inner : Env) (names : List String) (vs : List Value) (s : Store)
  /-- the frame of recursive bindings was made, with placeholders -/
  | reserved (inner : Env) (names : List String) (s : Store)
  /-- the names of recursive bindings were given their values -/
  | filled (inner : Env) (names : List String) (vs : List Value) (s : Store)
  /-- a global name was bound -/
  | defined (name : String) (v : Value)

/-- A state with a journal. -/
abbrev Watched := Machine (Journaled Memory Event)

namespace Watched

def store (r : Watched) : Store := r.memory.memory.store

/-- Give a name of a frame another value. -/
def assign (r : Watched) (id : FrameId) (x : String) (v : Value) : Watched :=
  (r.withPlain (State.mapStore r.plain fun s => s.update id x v)).note (.assigned id x v)

/-- Make a frame with names and their values inside an environment. -/
def bindIn (r : Watched) (env : Env) (names : List String) (vs : List Value) : Env × Watched :=
  let (inner, m) := State.extend r.plain env (names.zip vs)
  (inner, (r.withPlain m).note (.bound inner names vs m.memory.store))

/-- Make the frame of recursive bindings. -/
def reserve (r : Watched) (env : Env) (names : List String) : Env × Watched :=
  let (inner, m) := State.extend r.plain env (names.zip (names.map fun _ => .unspecified))
  (inner, (r.withPlain m).note (.reserved inner names m.memory.store))

/-- Give the names of recursive bindings their values. -/
def fill (r : Watched) (inner : Env) (names : List String) (vs : List Value) : Watched :=
  let m := assignAll inner (names.zip vs) r.plain
  (r.withPlain m).note (.filled inner names vs m.memory.store)

/-- Put back what is left of the trace count. -/
def setTraceCount (env : Env) (n : Number) (r : Watched) : Watched :=
  match r.store.holder? env Trace.countName with
  | some id => r.assign id Trace.countName (.number n)
  | none => r

end Watched

/-! ### What a journal says of look-ups -/

/-- Events that neither look a name up nor have to do with the names of recursive
bindings. -/
def Event.quiet : Event → Bool
  | read .. => false
  | assigned .. => false
  | reserved .. => false
  | filled .. => false
  | _ => true

/-- Going back through a journal from where a name of a frame has the value `v`, one
comes to where `v` was assigned to the name or the frame was filled with it; or,
if the name is one of recursive bindings, `v` is the placeholder. -/
def GivenBy (id : FrameId) (x : String) (v : Value) : List Event → Prop
  | [] => True
  | .assigned id' x' v' :: journal => (id' = id ∧ x' = x ∧ v' = v) ∨ GivenBy id x v journal
  | .filled inner names vs _ :: journal =>
      (inner.inner = id ∧ (x, v) ∈ names.zip vs) ∨ GivenBy id x v journal
  | .reserved inner names _ :: journal =>
      (inner.inner = id → x ∈ names → v = .unspecified) ∧ GivenBy id x v journal
  | _ :: journal => GivenBy id x v journal

/-- The frame that is made in an event. -/
def Event.made? : Event → Option FrameId
  | bound inner _ _ _ => some inner.inner
  | reserved inner _ _ => some inner.inner
  | _ => none

/-- Each look-up found what the journal up to then accounts for. -/
def Faithful : List Event → Prop
  | [] => True
  | .read id x v :: journal => GivenBy id x v journal ∧ Faithful journal
  | _ :: journal => Faithful journal

/-- A journal accounts for a store.  When it began there were the frames before
`first`. -/
structure Recorded (first : FrameId) (journal : List Event) (s : Store) : Prop where
  globals : 0 < s.frames.size
  made : ∀ id, first ≤ id → id < s.frames.size → ∃ event ∈ journal, event.made? = some id
  /-- the frames of recursive bindings exist, and the global frame is not among them -/
  reserved : ∀ inner names s', .reserved inner names s' ∈ journal →
    0 < inner.inner ∧ inner.inner < s.frames.size
  held : ∀ id x v, (s.frame id).get? x = some v → GivenBy id x v journal
  faithful : Faithful journal

theorem GivenBy.quiet {event : Event} (hevent : event.quiet = true) {id : FrameId} {x : String}
    {v : Value} {journal : List Event} (h : GivenBy id x v journal) :
    GivenBy id x v (event :: journal) := by
  cases event with
  | read | assigned | reserved | filled => cases hevent
  | _ => exact h

/-- The names of a frame that is not one of recursive bindings. -/
theorem givenBy_of_not_reserved {id : FrameId} {journal : List Event} (x : String) (v : Value)
    (h : ∀ inner names s, .reserved inner names s ∈ journal → inner.inner ≠ id) :
    GivenBy id x v journal := by
  induction journal with
  | nil => trivial
  | cons event journal ih =>
    have htail := ih fun inner names s hmem => h inner names s (List.mem_cons_of_mem event hmem)
    cases event with
    | assigned => exact .inr htail
    | filled => exact .inr htail
    | reserved inner names s =>
      exact ⟨fun hid => absurd hid (h inner names s List.mem_cons_self), htail⟩
    | _ => exact htail

/-- The event gives a name of a frame a value: by assignment, or as one of recursive
bindings. -/
def Event.Gives (id : FrameId) (x : String) (v : Value) : Event → Prop
  | assigned id' x' v' => id' = id ∧ x' = x ∧ v' = v
  | filled inner names vs _ => inner.inner = id ∧ (x, v) ∈ names.zip vs
  | _ => False

/-- A name of recursive bindings holds the placeholder until it is given a value. -/
theorem GivenBy.of_reserved {id : FrameId} {x : String} {v : Value} {mid before : List Event}
    {inner : Env} {names : List String} {s : Store}
    (h : GivenBy id x v (mid ++ .reserved inner names s :: before)) (hid : inner.inner = id)
    (hx : x ∈ names) : v = .unspecified ∨ ∃ event ∈ mid, event.Gives id x v := by
  induction mid with
  | nil => exact .inl (h.1 hid hx)
  | cons event mid ih =>
    have hlater : GivenBy id x v (mid ++ .reserved inner names s :: before) →
        v = .unspecified ∨ ∃ event' ∈ event :: mid, event'.Gives id x v := by
      intro h
      refine (ih h).imp_right fun hgives => ?_
      obtain ⟨event', hmem, hgives⟩ := hgives
      exact ⟨event', List.mem_cons_of_mem event hmem, hgives⟩
    cases event with
    | assigned =>
      rcases h with hgives | h
      · exact .inr ⟨_, List.mem_cons_self, hgives⟩
      · exact hlater h
    | filled =>
      rcases h with hgives | h
      · exact .inr ⟨_, List.mem_cons_self, hgives⟩
      · exact hlater h
    | reserved => exact hlater h.2
    | _ => exact hlater h

theorem Faithful.givenBy {later earlier : List Event} {id : FrameId} {x : String} {v : Value}
    (h : Faithful (later ++ .read id x v :: earlier)) : GivenBy id x v earlier := by
  induction later with
  | nil => exact h.1
  | cons event later ih =>
    cases event with
    | read => exact ih h.2
    | _ => exact ih h

namespace Recorded

variable {first : FrameId} {journal : List Event} {s : Store}

/-- A name of recursive bindings yields the placeholder or what it was given. -/
theorem read_of_reserved (h : Recorded first journal s) {later mid before : List Event}
    {inner : Env} {names : List String} {s' : Store} {x : String} {v : Value}
    (hjournal : journal
      = later ++ .read inner.inner x v :: (mid ++ .reserved inner names s' :: before))
    (hx : x ∈ names) : v = .unspecified ∨ ∃ event ∈ mid, event.Gives inner.inner x v := by
  have hfaithful := h.faithful
  rw [hjournal] at hfaithful
  exact hfaithful.givenBy.of_reserved rfl hx

/-- What was made before an event was made before. -/
theorem made_cons {n : Nat}
    (h : ∀ id, first ≤ id → id < n → ∃ event ∈ journal, event.made? = some id) (event : Event) :
    ∀ id, first ≤ id → id < n → ∃ event' ∈ event :: journal, event'.made? = some id := by
  intro id hfirst hid
  obtain ⟨event', hmem, hmade⟩ := h id hfirst hid
  exact ⟨event', List.mem_cons_of_mem event hmem, hmade⟩

theorem note (h : Recorded first journal s) {event : Event} (hevent : event.quiet = true) :
    Recorded first (event :: journal) s where
  globals := h.globals
  made := made_cons h.made event
  reserved inner names s' hmem := by
    rcases List.mem_cons.1 hmem with rfl | hmem
    · cases hevent
    · exact h.reserved inner names s' hmem
  held id x v hv := (h.held id x v hv).quiet hevent
  faithful := by
    cases event with
    | read | assigned | reserved | filled => cases hevent
    | _ => exact h.faithful

theorem read (h : Recorded first journal s) {id : FrameId} {x : String} {v : Value}
    (hv : (s.frame id).get? x = some v) : Recorded first (.read id x v :: journal) s where
  globals := h.globals
  made := made_cons h.made _
  reserved inner names s' hmem :=
    h.reserved inner names s' ((List.mem_cons.1 hmem).resolve_left nofun)
  held := h.held
  faithful := ⟨h.held id x v hv, h.faithful⟩

/-- The frames of recursive bindings, after another frame has been made. -/
theorem reserved_extend (h : Recorded first journal s) (env : Env) (pairs : List (String × Value))
    {inner : Env} {names : List String} {s' : Store} (hmem : .reserved inner names s' ∈ journal) :
    0 < inner.inner ∧ inner.inner < (s.extend env pairs).2.frames.size := by
  obtain ⟨hpos, hlt⟩ := h.reserved inner names s' hmem
  rw [Store.size_extend]
  exact ⟨hpos, Nat.lt_succ_of_lt hlt⟩

theorem held_extend (h : Recorded first journal s) (env : Env) (pairs : List (String × Value))
    {id : FrameId} {x : String} {v : Value}
    (hv : ((s.extend env pairs).2.frame id).get? x = some v) : GivenBy id x v journal := by
  rw [Store.frame_extend_eq] at hv
  split at hv
  · -- the new frame is none of those made so far
    next hid =>
    refine givenBy_of_not_reserved x v fun inner names s' hmem heq => ?_
    exact Nat.ne_of_lt (h.reserved inner names s' hmem).2 (heq.trans hid)
  · exact h.held id x v hv

/-- The frames are those of before and the one that was made. -/
theorem made_extend (h : Recorded first journal s) (env : Env) (pairs : List (String × Value))
    {event : Event} (hevent : event.made? = some s.frames.size) :
    ∀ id, first ≤ id → id < (s.extend env pairs).2.frames.size →
      ∃ event' ∈ event :: journal, event'.made? = some id := by
  intro id hfirst hid
  rw [Store.size_extend] at hid
  rcases Nat.lt_succ_iff_lt_or_eq.1 hid with hid | rfl
  · exact made_cons h.made event id hfirst hid
  · exact ⟨event, List.mem_cons_self, hevent⟩

/-- A frame with its values. -/
theorem bind (h : Recorded first journal s) (env : Env) (names : List String) (vs : List Value) :
    Recorded first
      (.bound ⟨s.frames.size, env.frames⟩ names vs (s.extend env (names.zip vs)).2 :: journal)
      (s.extend env (names.zip vs)).2 where
  globals := by
    rw [Store.size_extend]
    exact Nat.succ_pos _
  made := h.made_extend env _ rfl
  reserved inner names' s' hmem :=
    h.reserved_extend env _ ((List.mem_cons.1 hmem).resolve_left nofun)
  held id x v hv := h.held_extend env _ hv
  faithful := h.faithful

/-- What is held under the other names, and under that name in the other frames, was held
before. -/
theorem get?_update {id other : FrameId} {x y : String} {v w : Value}
    (hw : ((s.update id x v).frame other).get? y = some w) :
    (id = other ∧ x = y ∧ v = w) ∨ (s.frame other).get? y = some w := by
  rw [Store.frame_update_eq] at hw
  split at hw
  · next hid =>
    by_cases hx : x = y
    · subst hx
      rw [Bindings.get?_set_self] at hw
      exact .inl ⟨hid.1.symm, rfl, Option.some.inj hw⟩
    · rw [Bindings.get?_set_ne hx] at hw
      exact .inr (hid.1 ▸ hw)
  · exact .inr hw

theorem assign (h : Recorded first journal s) (id : FrameId) (x : String) (v : Value) :
    Recorded first (.assigned id x v :: journal) (s.update id x v) where
  globals := by
    rw [Store.size_update]
    exact h.globals
  made := by
    rw [Store.size_update]
    exact made_cons h.made _
  reserved inner names s' hmem := by
    rw [Store.size_update]
    exact h.reserved inner names s' ((List.mem_cons.1 hmem).resolve_left nofun)
  held other y w hw := (get?_update hw).imp_right (h.held other y w)
  faithful := h.faithful

theorem defineGlobal (h : Recorded first journal s) (x : String) (v : Value) :
    Recorded first journal (s.define .globals x v) where
  globals := by
    rw [Store.define, Store.size_update]
    exact h.globals
  made := by
    rw [Store.define, Store.size_update]
    exact h.made
  reserved inner names s' hmem := by
    rw [Store.define, Store.size_update]
    exact h.reserved inner names s' hmem
  held other y w hw := by
    rcases get?_update hw with ⟨rfl, rfl, rfl⟩ | hw
    · refine givenBy_of_not_reserved x v fun inner names s' hmem heq => ?_
      exact Nat.ne_of_gt (h.reserved inner names s' hmem).1 heq
    · exact h.held other y w hw
  faithful := h.faithful

/-- A frame of placeholders. -/
theorem reserve (h : Recorded first journal s) (env : Env) (names : List String) :
    Recorded first
      (.reserved ⟨s.frames.size, env.frames⟩ names
        (s.extend env (names.zip (names.map fun _ => .unspecified))).2 :: journal)
      (s.extend env (names.zip (names.map fun _ => .unspecified))).2 where
  globals := by
    rw [Store.size_extend]
    exact Nat.succ_pos _
  made := h.made_extend env _ rfl
  reserved inner names' s' hmem := by
    rcases List.mem_cons.1 hmem with heq | hmem
    · cases heq
      rw [Store.size_extend]
      exact ⟨h.globals, Nat.lt_succ_self _⟩
    · exact h.reserved_extend env _ hmem
  held id x v hv := by
    refine ⟨fun hid _ => ?_, h.held_extend env _ hv⟩
    rw [Store.frame_extend_eq, if_pos hid.symm] at hv
    have hmem := Bindings.mem_of_mem_ofList (Bindings.mem_of_get? hv)
    obtain ⟨y, -, hy⟩ := List.mem_map.1 (List.of_mem_zip hmem).2
    exact hy.symm
  faithful := h.faithful

/-- A frame that was made with something else is given its values. -/
theorem fill {env : Env} {pairs : List (String × Value)}
    (h : Recorded first journal (s.extend env pairs).2) (names : List String) (vs : List Value) :
    Recorded first
      (.filled ⟨s.frames.size, env.frames⟩ names vs (s.extend env (names.zip vs)).2 :: journal)
      (s.extend env (names.zip vs)).2 where
  globals := by
    rw [Store.size_extend]
    exact Nat.succ_pos _
  made := by
    rw [Store.size_extend, ← s.size_extend env pairs]
    exact made_cons h.made _
  reserved inner names' s' hmem := by
    rw [Store.size_extend, ← s.size_extend env pairs]
    exact h.reserved inner names' s' ((List.mem_cons.1 hmem).resolve_left nofun)
  held id x v hv := by
    rw [Store.frame_extend_eq] at hv
    split at hv
    · next hid => exact .inl ⟨hid.symm, Bindings.mem_of_mem_ofList (Bindings.mem_of_get? hv)⟩
    · next hid =>
      refine .inr (h.held id x v ?_)
      rw [Store.frame_extend_eq, if_neg hid]
      exact hv
  faithful := h.faithful

end Recorded

/-! ### Evaluation -/

/-- Apply a function value. -/
def watchApply (body : Exp → Env → Watched → Outcome Watched Value) (call callee : Exp)
    (f : Value) (args : List Value) (r : Watched) : Outcome Watched Value :=
  match f with
  | .closure lambda env =>
      if lambda.formals.length = args.length then
        let (env, r) := r.bindIn env lambda.formals args
        body lambda.body env r
      else .fault (.arity lambda.formals.length args.length (some call.text)) r
  | .primitive p => r.unnoted (applyPrimitive p args call)
  | v => .fault (.notFunction callee.text v.text call.text) r

/-- The frames of sequential bindings. -/
def watchBindEach (sub : Exp → Env → Watched → Outcome Watched Value) :
    List (String × Exp) → Env → Watched → Outcome Watched Env
  | [], env, r => .value env r
  | (x, e) :: bs, env, r =>
      (sub e env r).andThen fun v r =>
        let (env, r) := r.bindIn env [x] [v]
        watchBindEach sub bs env r

/-- Evaluate an expression, whose parts and bodies `sub` evaluates. -/
def watchForm (limits : Limits) (sub : Exp → Env → Watched → Outcome Watched Value) (exp : Exp)
    (env : Env) (r : Watched) : Outcome Watched Value :=
  match exp with
  | .literal d => .value (.ofDatum d) r
  | .var x =>
      match r.store.holder? env x, r.store.get? env x with
      | some id, some v => .value v (r.note (.read id x v))
      | _, _ => .fault (.unbound x) r
  | .set x e =>
      (sub e env r).andThen fun v r =>
        match r.store.holder? env x with
        | some id => .value v (r.assign id x v)
        | none => .fault (.unboundTarget x exp.text) r
  | .cond test yes no =>
      (sub test env r).andThen fun v r => if v.isTrue then sub yes env r else sub no env r
  | .loop test body =>
      evalWhile Value.isTrue (.bool false) (sub test env) (sub body env) limits.turns r
  | .block parts => evalLast (fun e r => sub e env r) (.bool false) parts r
  | .apply callee args =>
      (sub callee env r).andThen fun f r =>
        (evalEach (fun e r => sub e env r) args r).andThen fun vs r =>
          Trace.around (State.traceCount? r.plain env) (Watched.setTraceCount env)
            (fun _ => Trace.callText callee.text (vs.map Value.text)) Value.text
            (watchApply sub exp callee f vs) (r.note (.applied exp f vs))
  | .lambda label formals body => .value (.closure ⟨label, formals, body⟩ env) r
  | .bind .plain bindings body =>
      (evalEach (fun b r => sub b.2 env r) bindings r).andThen fun vs r =>
        let (inner, r) := r.bindIn env (bindings.map (·.1)) vs
        sub body inner r
  | .bind .sequential bindings body =>
      (watchBindEach sub bindings env r).andThen fun inner r => sub body inner r
  | .bind .recursive bindings body =>
      match nonLambda? bindings with
      | some e => .fault (.nonLambdaBinding e.text) r
      | none =>
          let (inner, r) := r.reserve env (bindings.map (·.1))
          (evalEach (fun b r => sub b.2 inner r) bindings r).andThen fun vs r =>
            sub body inner (r.fill inner (bindings.map (·.1)) vs)

/-- Evaluate an expression in an environment, with so many levels left. -/
def watch (limits : Limits) : Nat → Exp → Env → Watched → Outcome Watched Value
  | 0, _, _, r => .fault (.tooDeep limits.depth) r
  | left + 1, exp, env, r =>
      (watchForm limits (watch limits left) exp env (r.note (.began exp env r.store))).andThen
        fun v r => .value v (r.note (.ended exp v))

/-- Evaluate an expression at top level. -/
def watchGlobal (limits : Limits) (e : Exp) (r : Watched) : Outcome Watched Value :=
  let (e, m) := State.load r.plain e
  watch limits limits.depth e .globals (r.withPlain m)

/-- Bind a name at top level to a value, then print a line. -/
def watchBindAndEcho (echo : Echo) (name : String) (v : Value) (line : Unit → String)
    (r : Watched) : Outcome Watched Value :=
  (r.note (.defined name v)).unnoted (bindAndEcho echo name v line)

/-- Carry out a definition. -/
def watchDefine (limits : Limits) (echo : Echo) (d : Definition Exp Lambda) (r : Watched) :
    Outcome Watched Value :=
  match d with
  | .val name e =>
      (watchGlobal limits e r).andThen fun v r =>
        watchBindAndEcho echo name v (fun _ => echoText name v) r
  | .function name f =>
      match repeated? f.formals with
      | some formal => .fault (.repeatedFormal formal name) r
      | none =>
          let (f, m) := State.loadLambda r.plain f
          watchBindAndEcho echo name (.closure f .globals) (fun _ => name) (r.withPlain m)
  | .exp e =>
      (watchGlobal limits e r).andThen fun v r =>
        watchBindAndEcho echo itName v (fun _ => v.text) r

/-- The functional language with a journal. -/
def watchedTwin : Twin Language.functional where
  Memory := Journaled Memory Event
  define := fun limits echo d r => (watchDefine limits echo d r).map fun _ => ()
  eval := watchGlobal
  initial := ⟨.initial, []⟩
  view := Journaled.memory

end Primer.Functional
