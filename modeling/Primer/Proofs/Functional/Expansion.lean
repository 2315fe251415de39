/-
Primer/Proofs/Functional/Expansion.lean

Binding forms and what they stand for.

Sequential bindings stand for plain bindings, one inside the other
(`Exp.nested`), and plain bindings for the call of a function that has their
names as formal parameters (`Exp.immediateCall`).  The evaluator does not
expand either form, and the forms do not get equally deep: each of the nested
bindings is one level further in, while all of the sequential ones are evaluated
at one level.

So the first comparison needs to know what more levels of depth do to an
evaluation.  `Outcome.Deepens` says that they make no difference unless the
levels ran out before; with the same bound on turns this goes for evaluations
that do not end, too (`deepens_eval`).  The second comparison needs no such
thing, but a call may be traced where a binding is not.  It is an equality as
long as no frame in sight has a trace count (`eval_immediateCall`).
-/
import Primer.Functional.Interpreter
import Primer.Proofs.DepthLimit
import Primer.Proofs.Steady

namespace Primer

/-! ### More levels of depth -/

namespace Outcome

variable {σ α β ι : Type} {d : Nat}

/-- The end `o'` of a computation that had more levels of depth than when it ended in `o`:
it is the same, unless the levels ran out. -/
inductive Deepens (d : Nat) : Outcome σ α → Outcome σ α → Prop
  | same (o : Outcome σ α) : Deepens d o o
  | tooDeep (s : σ) (o' : Outcome σ α) : Deepens d (.fault (.tooDeep d) s) o'

namespace Deepens

theorem andThen {o o' : Outcome σ α} {f g : α → σ → Outcome σ β} (h : Deepens d o o')
    (hfg : ∀ a s, Deepens d (f a s) (g a s)) : Deepens d (o.andThen f) (o'.andThen g) := by
  cases h with
  | same =>
    cases o with
    | value a s => exact hfg a s
    | fault e s => exact .same _
    | unfinished s => exact .same _
  | tooDeep s => exact .tooDeep s _

theorem evalEach {f g : ι → σ → Outcome σ α} (hfg : ∀ a s, Deepens d (f a s) (g a s))
    (as : List ι) (s : σ) : Deepens d (Primer.evalEach f as s) (Primer.evalEach g as s) := by
  induction as generalizing s with
  | nil => exact .same _
  | cons a as ih =>
    apply (hfg a s).andThen
    intro b s
    exact (ih s).andThen fun bs s => .same _

theorem evalLast {f g : ι → σ → Outcome σ α} (hfg : ∀ a s, Deepens d (f a s) (g a s))
    (last : α) (as : List ι) (s : σ) :
    Deepens d (Primer.evalLast f last as s) (Primer.evalLast g last as s) := by
  induction as generalizing s last with
  | nil => exact .same _
  | cons a as ih => exact (hfg a s).andThen fun b s => ih b s

/-- A loop takes its turns on both sides, and is out of turns on both sides. -/
theorem evalWhile {isTrue : α → Bool} {done : α} {test body test' body' : σ → Outcome σ α}
    (htest : ∀ s, Deepens d (test s) (test' s)) (hbody : ∀ s, Deepens d (body s) (body' s))
    (turns : Nat) (s : σ) :
    Deepens d (Primer.evalWhile isTrue done test body turns s)
      (Primer.evalWhile isTrue done test' body' turns s) := by
  induction turns generalizing s with
  | zero => exact .same _
  | succ turns ih =>
    apply (htest s).andThen
    intro a s
    split
    · exact (hbody s).andThen fun _ s => ih s
    · exact .same _

/-- A computation that did not run out of levels ends the same way. -/
theorem eq_of_ne {o o' : Outcome σ α} (h : Deepens d o o')
    (hne : ∀ s, o ≠ .fault (.tooDeep d) s) : o' = o := by
  cases h with
  | same => rfl
  | tooDeep s => exact absurd rfl (hne s)

end Deepens

/-- To do something for each of a list of results is to do it after making each result. -/
theorem evalEach_map (f : β → σ → Outcome σ α) (g : ι → β) (as : List ι) (s : σ) :
    evalEach f (as.map g) s = evalEach (fun a => f (g a)) as s := by
  induction as generalizing s with
  | nil => rfl
  | cons a as ih => simp only [List.map_cons, evalEach, ih]

/-- There is one value for each of the list. -/
theorem length_of_evalEach {f : ι → σ → Outcome σ α} {as : List ι} {s s' : σ} {vs : List α}
    (h : evalEach f as s = .value vs s') : vs.length = as.length := by
  induction as generalizing s vs with
  | nil =>
    cases h
    rfl
  | cons a as ih =>
    obtain ⟨v, t, -, h⟩ := andThen_eq_value_iff.1 h
    obtain ⟨us, t', hus, h⟩ := andThen_eq_value_iff.1 h
    cases h
    rw [List.length_cons, List.length_cons, ih hus]

end Outcome

open Outcome

/-- A call under the trace, with more levels of depth for what it runs. -/
theorem Trace.deepens_around {μ α : Type} {d : Nat} {count : Option Number}
    {spend : Number → Machine μ → Machine μ} {call : Unit → String} {render : α → String}
    {run run' : Machine μ → Outcome (Machine μ) α} (hrun : ∀ m, Deepens d (run m) (run' m))
    (m : Machine μ) :
    Deepens d (around count spend call render run m) (around count spend call render run' m) := by
  refine (Deepens.same (enter count spend call m)).andThen fun traced s => ?_
  have h := hrun s
  split
  · generalize run s = o at h
    generalize run' s = o' at h
    cases h with
    | same => exact .same _
    | tooDeep s => exact .tooDeep _ _
  · exact h

namespace Functional

theorem deepens_applyValue {d : Nat} {body body' : Exp → Env → State → Outcome State Value}
    (hbody : ∀ e env m, Deepens d (body e env m) (body' e env m)) (call callee : Exp) (f : Value)
    (args : List Value) (m : State) :
    Deepens d (applyValue body call callee f args m) (applyValue body' call callee f args m) := by
  cases f with
  | closure lambda env =>
    simp only [applyValue]
    split
    · exact hbody _ _ _
    · exact .same _
  | _ => exact .same _

theorem deepens_bindEach {d : Nat} {evalIn evalIn' : Exp → Env → State → Outcome State Value}
    (heval : ∀ e env m, Deepens d (evalIn e env m) (evalIn' e env m))
    (bindings : List (String × Exp)) (env : Env) (m : State) :
    Deepens d (bindEach evalIn bindings env m) (bindEach evalIn' bindings env m) := by
  induction bindings generalizing env m with
  | nil => exact .same _
  | cons b bs ih => exact (heval b.2 env m).andThen fun v s => ih _ _

section

variable {l : Limits} {left left' : Nat}

/-- One level of evaluation, from the levels below. -/
theorem deepens_eval_succ
    (ih : ∀ e env m, Deepens l.depth (eval l left e env m) (eval l left' e env m))
    (e : Exp) (env : Env) (m : State) :
    Deepens l.depth (eval l (left + 1) e env m) (eval l (left' + 1) e env m) := by
  cases e with
  | literal d => exact .same _
  | var x => exact .same _
  | set x e => exact (ih e env m).andThen fun v s => .same _
  | cond test yes no =>
    apply (ih test env m).andThen
    intro v s
    split
    · exact ih yes env s
    · exact ih no env s
  | loop test body => exact .evalWhile (ih test env) (ih body env) l.turns m
  | block parts => exact .evalLast (fun e s => ih e env s) _ parts m
  | apply callee args =>
    apply (ih callee env m).andThen
    intro f s
    apply (Deepens.evalEach (fun e s => ih e env s) args s).andThen
    intro vs s
    exact Trace.deepens_around (deepens_applyValue ih (.apply callee args) callee f vs) s
  | lambda label formals body => exact .same _
  | bind kind bindings body =>
    cases kind with
    | plain =>
      apply (Deepens.evalEach (fun b s => ih b.2 env s) bindings m).andThen
      exact fun vs s => ih body _ _
    | sequential => exact (deepens_bindEach ih bindings env m).andThen fun inner s => ih body _ _
    | recursive =>
      simp only [eval]
      split
      · exact .same _
      · apply (Deepens.evalEach (fun b s => ih b.2 _ s) bindings _).andThen
        exact fun vs s => ih body _ _

/-- **More levels of depth** change nothing for an evaluation that did not run out of
them. -/
theorem deepens_eval (hleft : left ≤ left') (e : Exp) (env : Env) (m : State) :
    Deepens l.depth (eval l left e env m) (eval l left' e env m) := by
  induction left generalizing left' e env m with
  | zero => exact .tooDeep m _
  | succ left ih =>
    obtain ⟨left', rfl⟩ : ∃ k, left' = k + 1 := ⟨left' - 1, by omega⟩
    exact deepens_eval_succ (ih (Nat.le_of_succ_le_succ hleft)) e env m

end

/-! ### Sequential bindings -/

/-- Plain bindings of one name each, one inside the other, around a body. -/
def Exp.nested : List (String × Exp) → Exp → Exp
  | [], body => body
  | b :: bs, body => .bind .plain [b] (nested bs body)

section

variable {l : Limits}

/-- A plain binding of one name. -/
theorem eval_single (left : Nat) (b : String × Exp) (body : Exp) (env : Env) (m : State) :
    eval l (left + 1) (.bind .plain [b] body) env m
      = (eval l left b.2 env m).andThen fun v s =>
          eval l left body (s.extend env [(b.1, v)]).1 (s.extend env [(b.1, v)]).2 := by
  show ((eval l left b.2 env m).andThen fun v s => .value [v] s).andThen _ = _
  rw [andThen_assoc]
  rfl

/-- Each of the nested bindings takes a level away from those inside it, so the sequential
bindings may have any number of levels that is no smaller. -/
theorem deepens_nested {left left' : Nat} (hleft : left ≤ left') (bindings : List (String × Exp))
    (body : Exp) (env : Env) (m : State) :
    Deepens l.depth (eval l left (.nested bindings body) env m)
      ((bindEach (eval l left') bindings env m).andThen (eval l left' body)) := by
  induction bindings generalizing left env m with
  | nil => exact deepens_eval hleft body env m
  | cons b bs ih =>
    cases left with
    | zero => exact .tooDeep m _
    | succ left =>
      have hle : left ≤ left' := Nat.le_of_succ_le hleft
      rw [Exp.nested, eval_single, bindEach, andThen_assoc]
      exact (deepens_eval hle b.2 env m).andThen fun v s => ih hle _ _

/-- Sequential bindings go at least as far as the nested ones, if there are any. -/
theorem deepens_sequential {bindings : List (String × Exp)} (h : bindings ≠ []) (left : Nat)
    (body : Exp) (env : Env) (m : State) :
    Deepens l.depth (eval l left (.nested bindings body) env m)
      (eval l left (.bind .sequential bindings body) env m) := by
  cases bindings with
  | nil => exact absurd rfl h
  | cons b bs =>
    cases left with
    | zero => exact .same _
    | succ left =>
      -- the first initial value is at the same level on both sides
      show Deepens l.depth _ ((bindEach (eval l left) (b :: bs) env m).andThen (eval l left body))
      rw [Exp.nested, eval_single, bindEach, andThen_assoc]
      apply (Deepens.same (eval l left b.2 env m)).andThen
      exact fun v s => deepens_nested (Nat.le_refl left) bs body _ _

/-- If there are none, the body alone is a level further out. -/
theorem deepens_sequential_nil (left : Nat) (body : Exp) (env : Env) (m : State) :
    Deepens l.depth (eval l left (.bind .sequential [] body) env m)
      (eval l left (.nested [] body) env m) := by
  cases left with
  | zero => exact .same _
  | succ left => exact deepens_eval (Nat.le_succ left) body env m

/-- If there are none, what is evaluated is the body, one level further in. -/
theorem evalFrom_sequential_nil (depth start : Nat) (body : Exp) (env : Env) (m : State) :
    evalFrom depth start (.bind .sequential [] body) env m
      = evalFrom depth (start + 1) (.nested [] body) env m := by
  funext turns
  unfold evalFrom
  rw [← Nat.sub_sub]
  cases depth - start with
  | zero => rfl
  | succ left => rfl

end

/-! ### Plain bindings -/

/-- A function of the names that are bound, called with their initial values. -/
def Exp.immediateCall (label : Nat) (bindings : List (String × Exp)) (body : Exp) : Exp :=
  .apply (.lambda label (bindings.map (·.1)) body) (bindings.map (·.2))

/-- The frames of an environment exist, and none of them has a trace count. -/
structure Store.Traceless (env : Env) (s : Store) : Prop where
  bound : ∀ id ∈ env.frames, id < s.frames.size
  count : ∀ id ∈ env.frames, (s.frame id).has Trace.countName = false

/-- Frames that exist get no new names in an evaluation. -/
theorem Store.Traceless.steady (env : Env) : Store.Steady (Store.Traceless env) where
  extend := by
    intro s other pairs h
    refine ⟨fun id hid => ?_, fun id hid => ?_⟩
    · rw [Store.size_extend]
      exact Nat.lt_succ_of_lt (h.bound id hid)
    · rw [Store.frame_extend (h.bound id hid)]
      exact h.count id hid
  update := by
    intro s other x v h hx
    refine ⟨fun id hid => ?_, fun id hid => ?_⟩
    · rw [Store.size_update]
      exact h.bound id hid
    · rw [Store.frame_update_eq]
      split
      · next hother =>
        -- the name that is assigned to was bound before
        obtain ⟨rfl, -⟩ := hother
        have hne : x ≠ Trace.countName := by
          rintro rfl
          rw [h.count id hid] at hx
          cases hx
        rw [Bindings.has_set, h.count id hid]
        simp [hne]
      · exact h.count id hid

theorem Store.Traceless.get?_eq_none {env : Env} {s : Store} (h : s.Traceless env) :
    s.get? env Trace.countName = none := by
  rw [Store.get?, Store.getIn_eq_bind]
  cases hholder : s.holderIn Trace.countName env.frames with
  | none => rfl
  | some id =>
    obtain ⟨hid, hhas⟩ := s.holderIn_mem hholder
    rw [h.count id hid] at hhas
    cases hhas

/-- Where there is no trace count, a call is not traced. -/
theorem Store.Traceless.around_eq {env : Env} {m : State} (h : m.memory.store.Traceless env)
    (call : Unit → String) (run : State → Outcome State Value) :
    Trace.around (m.traceCount? env) (State.setTraceCount env) call Value.text run m = run m := by
  rw [State.traceCount?, h.get?_eq_none]
  rfl

section

variable {l : Limits} {env : Env} {m : State}

/-- An immediate call does what plain bindings do, if there is a level left for the
function. -/
theorem eval_immediateCall_succ (h : m.memory.store.Traceless env) (left label : Nat)
    (bindings : List (String × Exp)) (body : Exp) :
    eval l (left + 2) (.immediateCall label bindings body) env m
      = eval l (left + 2) (.bind .plain bindings body) env m := by
  let evalBinding : String × Exp → State → Outcome State Value :=
    fun b m => eval l (left + 1) b.2 env m
  show (evalEach (fun e m => eval l (left + 1) e env m) (bindings.map (·.2)) m).andThen _
    = (evalEach evalBinding bindings m).andThen _
  rw [evalEach_map]
  have hkeeps : Keeps (fun m : State => m.memory.store.Traceless env)
      (evalEach evalBinding bindings) :=
    .evalEach fun b _ => keeps_eval (Store.Traceless.steady env) l (left + 1) b.2 env
  cases hvalues : evalEach evalBinding bindings m with
  | fault e s => rfl
  | unfinished s => rfl
  | value vs s =>
    have hend : s.memory.store.Traceless env := by
      have hstate := hkeeps m h
      rwa [hvalues] at hstate
    have hlen : (bindings.map (·.1)).length = vs.length := by
      rw [List.length_map, length_of_evalEach hvalues]
    show Trace.around (s.traceCount? env) _ _ _ _ s = _
    rw [hend.around_eq]
    simp only [applyValue, if_pos hlen, andThen_value]

/-- With a single level left neither an initial value nor the function can be evaluated,
so that only bindings of no names get any further. -/
theorem eval_immediateCall (h : m.memory.store.Traceless env) {left : Nat}
    {bindings : List (String × Exp)} (hlevel : bindings ≠ [] ∨ left ≠ 1) (label : Nat)
    (body : Exp) : eval l left (.immediateCall label bindings body) env m
      = eval l left (.bind .plain bindings body) env m := by
  cases left with
  | zero => rfl
  | succ left =>
    cases left with
    | zero =>
      cases bindings with
      | nil => exact absurd rfl (hlevel.resolve_left fun h => h rfl)
      | cons b bs => rfl
    | succ left => exact eval_immediateCall_succ h left label bindings body

/-- The same in every frame.  A frame of which there is none holds nothing, so one of the
states may have more frames than the other, but these are empty. -/
structure State.HoldsSame (m m' : State) : Prop where
  frames : ∀ id, m.memory.store.frame id = m'.memory.store.frame id
  labels : m.memory.nextLabel = m'.memory.nextLabel
  console : m.console = m'.console
  indent : m.indent = m'.indent

theorem State.HoldsSame.refl (m : State) : m.HoldsSame m := ⟨fun _ => rfl, rfl, rfl, rfl⟩

/-- A frame that binds nothing is as good as none. -/
theorem State.HoldsSame.extend_nil (m : State) (env : Env) : (m.extend env []).2.HoldsSame m := by
  refine ⟨fun id => ?_, rfl, rfl, rfl⟩
  show (m.memory.store.extend env []).2.frame id = _
  rw [Store.frame_extend_eq]
  split
  · next hid =>
    rw [hid, Store.frame_of_size_le _ (Nat.le_refl _)]
    rfl
  · rfl

/-- An outcome agrees with itself. -/
theorem agree_self (o : Outcome State Value) : Agree State.HoldsSame Eq o o := by
  cases o with
  | value v s => exact .value le_rfl (.refl s) rfl
  | fault e s => exact .fault le_rfl (.refl s)
  | unfinished s => exact .unfinished le_rfl (.refl s)

/-- Where the two differ they run out of levels, and a frame was made that holds nothing. -/
theorem agree_immediateCall (h : m.memory.store.Traceless env) (left label : Nat)
    (bindings : List (String × Exp)) (body : Exp) :
    Agree State.HoldsSame Eq (eval l left (.bind .plain bindings body) env m)
      (eval l left (.immediateCall label bindings body) env m) := by
  by_cases hlevel : bindings ≠ [] ∨ left ≠ 1
  · rw [eval_immediateCall h hlevel]
    exact agree_self _
  · obtain ⟨rfl, rfl⟩ : bindings = [] ∧ left = 1 := by simpa using hlevel
    exact .fault le_rfl (.extend_nil m env)

end

/-! ### Both expansions -/

/-- **Binding forms agree with their expansions.**  In any state and environment, at any
depth to start with, and for every bound on the turns of loops:

* sequential bindings are plain bindings one inside the other, unless these get too
  deep.  Where there are no bindings the expansion is the body alone, one level further
  out than in the binding form, so here the binding form must not be too deep either.
* sequential bindings of no names are their body one level further in, whatever that
  comes to.
* where no frame of the environment has a trace count, plain bindings are the call of a
  function with their names as formal parameters.  They run out of levels together; if
  this is because nothing but the level of the form itself was left, bindings of no
  names have made a frame, which holds nothing, and in all other cases the two are
  equal. -/
theorem binding_forms_agree_with_expansions (depth start : Nat) (bindings : List (String × Exp))
    (body : Exp) (env : Env) (m : State) :
    ((∀ turns s, evalFrom depth start (.nested bindings body) env m turns
        ≠ .fault (.tooDeep depth) s) →
      (bindings = [] → ∀ turns s, evalFrom depth start (.bind .sequential bindings body) env m turns
        ≠ .fault (.tooDeep depth) s) →
      evalFrom depth start (.bind .sequential bindings body) env m
        = evalFrom depth start (.nested bindings body) env m) ∧
    evalFrom depth start (.bind .sequential [] body) env m
      = evalFrom depth (start + 1) (.nested [] body) env m ∧
    (m.memory.store.Traceless env → ∀ label,
      (∀ turns, Agree State.HoldsSame Eq
        (evalFrom depth start (.bind .plain bindings body) env m turns)
        (evalFrom depth start (.immediateCall label bindings body) env m turns)) ∧
      (bindings ≠ [] ∨ depth ≠ start + 1 →
        evalFrom depth start (.bind .plain bindings body) env m
          = evalFrom depth start (.immediateCall label bindings body) env m)) := by
  refine ⟨fun hnested hempty => ?_, evalFrom_sequential_nil depth start body env m,
    fun htrace label => ⟨fun turns => ?_, fun hlevel => ?_⟩⟩
  · funext turns
    by_cases hne : bindings = []
    · subst hne
      have h := deepens_sequential_nil (l := ⟨depth, turns⟩) (depth - start) body env m
      exact (h.eq_of_ne (hempty rfl turns)).symm
    · exact (deepens_sequential hne (depth - start) body env m).eq_of_ne (hnested turns)
  · exact agree_immediateCall htrace (depth - start) label bindings body
  · funext turns
    refine (eval_immediateCall htrace ?_ label body).symm
    exact hlevel.imp_right fun h hleft => h (by omega)

/-- With a single level left a literal has its value, but bindings of no names around it are
too deep. -/
theorem sequential_bindings_of_no_names_too_deep :
    let m : State := .initial .empty
    let body : Exp := .literal (.number (.ofBool true))
    (∀ turns, evalFrom 1 0 (.nested [] body) .globals m turns
        = .value (.number (.ofBool true)) m) ∧
      ∀ turns, evalFrom 1 0 (.bind .sequential [] body) .globals m turns
        = .fault (.tooDeep 1) m :=
  ⟨fun _ => rfl, fun _ => rfl⟩

/-- A name that is bound twice, with a function in between that has captured the first of
the two, where the nested bindings have no level to spare; and a call of that function
among initial values. -/
theorem binding_forms_agree_with_expansions_captured :
    let m : State := ⟨⟨⟨#[[("cons", .primitive .cons)]]⟩, 1⟩, .empty, 0⟩
    let captured : List (String × Exp) := [("x", .literal (.bool true)),
      ("f", .lambda 0 [] (.var "x")), ("x", .literal (.bool false))]
    let body : Exp := .apply (.var "f") []
    let pair : List (String × Exp) := [("x", .nested captured body), ("y", .var "cons")]
    ((∀ turns s, evalFrom 5 0 (.nested captured body) .globals m turns
        ≠ .fault (.tooDeep 5) s) ∧
      evalFrom 5 0 (.bind .sequential captured body) .globals m
        = evalFrom 5 0 (.nested captured body) .globals m) ∧
    m.memory.store.Traceless .globals ∧
      evalFrom 9 0 (.bind .plain pair (.apply (.var "y") [.var "x", .var "x"])) .globals m
        = evalFrom 9 0 (.immediateCall 1 pair (.apply (.var "y") [.var "x", .var "x"]))
            .globals m := by
  intro m captured body pair
  have hdeep : ∀ turns s, evalFrom 5 0 (.nested captured body) .globals m turns
      ≠ .fault (.tooDeep 5) s := by
    intro turns s h
    cases h
  have htrace : m.memory.store.Traceless .globals := by
    refine ⟨fun id hid => ?_, fun id hid => ?_⟩
    · obtain rfl := List.mem_singleton.1 hid
      exact Nat.zero_lt_one
    · obtain rfl := List.mem_singleton.1 hid
      rfl
  refine ⟨⟨hdeep, ?_⟩, htrace, ?_⟩
  · exact (binding_forms_agree_with_expansions 5 0 captured body .globals m).1 hdeep
      fun h => absurd h (List.cons_ne_nil _ _)
  · exact ((binding_forms_agree_with_expansions 9 0 pair _ .globals m).2.2 htrace 1).2
      (.inl (List.cons_ne_nil _ _))

end Functional

end Primer
