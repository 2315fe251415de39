/-
Primer/Proofs/Functional/Placeholder.lean

The placeholder of recursive bindings.

Recursive bindings are made in two steps: a frame that binds each name to a
placeholder, then the closures of the initial values over that frame, which take
the place of the placeholders.  No program ever sees a placeholder
(`placeholder_is_never_seen`): in the course of any session no expression
evaluates to a value that has one in it, none is passed to a function, assigned,
bound or looked up, and no variable that code can get at holds one, at the end
included.

The discipline behind this marks each frame as live or given up.  Frames are
live from when they are made, except for one kind: if there is no level of depth
left for the initial values of recursive bindings, their frame keeps its
placeholders, but nothing has captured it and it is given up.
-/
import Primer.Proofs.Functional.Session

namespace Primer.Functional

open Outcome

/-! ### Values without placeholders -/

/-- Whether a value is the placeholder or has it inside a pair. -/
def Value.hasPlaceholder : Value → Bool
  | .pair a d => a.hasPlaceholder || d.hasPlaceholder
  | .unspecified => true
  | _ => false

theorem Value.Alike.hasPlaceholder_eq_false {R : Lambda → Env → Env → Prop} {v v' : Value}
    (h : Value.Alike False R v v') : v.hasPlaceholder = false := by
  induction h with
  | pair _ _ iha ihd => rw [Value.hasPlaceholder, iha, ihd, Bool.or_false]
  | unspecified h => exact h.elim
  | _ => rfl

/-- The values that an event shows. -/
def Event.values : Event → List Value
  | began .. => []
  | ended _ v => [v]
  | read _ _ v => [v]
  | assigned _ _ v => [v]
  | applied _ f args => f :: args
  | bound _ _ vs _ => vs
  | reserved .. => []
  | filled _ _ vs _ => vs
  | defined _ v => [v]

/-- No variable of a frame that can be reached holds a placeholder. -/
def Store.Clean (s : Store) (roots : List FrameId) : Prop :=
  ∀ id, s.Reachable roots id → ∀ b ∈ s.frame id, b.2.hasPlaceholder = false

/-! ### Live frames -/

/-- The frames that were not given up. -/
def liveDiscipline : Discipline (Ledger Bool) where
  scope w _ env := ∀ id ∈ env.frames, w.entries[id]? = some true
  live w id := w.entries[id]? = some true
  shape w s := w.entries.length = s.frames.size
  hole := False
  grow w _ _ := w.push true
  first := 1

theorem liveDiscipline_kept : liveDiscipline.Kept where
  le_grow w _ _ := w.le_push true
  scope_mono hw hscope id hid := Ledger.getElem?_of_le hw (hscope id hid)
  scope_part hscope _ := hscope
  scope_body := by
    intro w s e env names body hshape hscope _ id hid
    rcases List.mem_cons.1 hid with rfl | hid
    · show (w.push true).entries[s.frames.size]? = some true
      rw [← show w.entries.length = s.frames.size from hshape]
      exact w.getElem?_push_length true
    · exact Ledger.getElem?_of_le (w.le_push true) (hscope id hid)
  scope_live hscope := hscope
  live_grow := by
    intro w s env names id hshape hid
    rcases Ledger.getElem?_push hid with ⟨hnew, -⟩ | ⟨-, hold⟩
    · exact .inl (hnew.trans hshape)
    · exact .inr hold
  shape_extend := by
    intro w s e env names vs hshape _
    show (w.push true).entries.length = (s.extend env (names.zip vs)).2.frames.size
    rw [Ledger.length_push, Store.size_extend, ← show w.entries.length = s.frames.size from hshape]
  shape_update := by
    intro w s id x v hshape _
    show w.entries.length = (s.update id x v).frames.size
    rw [Store.size_update]
    exact hshape
  abandon := by
    -- the frame is given up: it exists, but it is not live
    intro w s e env names vs hshape _
    have hsize : w.entries.length = s.frames.size := hshape
    refine ⟨w.push false, w.le_push false, ?_, fun id hid => .inr ?_⟩
    · show (w.push false).entries.length = (s.extend env (names.zip vs)).2.frames.size
      rw [Ledger.length_push, Store.size_extend, hsize]
    · rcases Ledger.getElem?_push hid with ⟨-, hfalse⟩ | ⟨hne, hold⟩
      · cases hfalse
      · exact ⟨fun h => hne (h.trans hsize.symm), hold⟩

theorem liveDiscipline_serves : liveDiscipline.Serves ⟨[true]⟩ where
  toKept := liveDiscipline_kept
  initial := by
    refine ⟨rfl, fun id _ b hb => ?_⟩
    obtain ⟨p, hp⟩ := primitive_of_mem_initial hb
    rw [hp]
    exact .primitive p
  exp := by
    intro w form e next hw _ _ id hid
    obtain rfl := List.mem_singleton.1 hid
    exact Ledger.getElem?_of_le hw rfl
  function := by
    intro w name f next hw _ _ id hid
    obtain rfl := List.mem_singleton.1 hid
    exact Ledger.getElem?_of_le hw rfl
  shape_define := by
    intro w s name v hshape
    show w.entries.length = (s.update 0 name v).frames.size
    rw [Store.size_update]
    exact hshape
  first := rfl

variable {w : Ledger Bool} {s : Store}

theorem liveDiscipline_good {v : Value} (h : liveDiscipline.Good w v) :
    v.hasPlaceholder = false :=
  Value.Alike.hasPlaceholder_eq_false h

/-- What can be reached from live frames is live, so it holds no placeholders. -/
theorem clean_of_holds (h : liveDiscipline.Holds w s) {roots : List FrameId}
    (hroots : ∀ id ∈ roots, liveDiscipline.live w id) : s.Clean roots := by
  have hlive : ∀ id, s.Reachable roots id → liveDiscipline.live w id := by
    intro id hid
    induction hid with
    | root hid => exact hroots _ hid
    | captured _ hb hc hid' ih => exact (h.values _ ih _ hb).scope _ hc _ hid'
  exact fun id hid b hb => liveDiscipline_good (h.values id (hlive id hid) b hb)

/-- An event that is allowed shows no placeholders. -/
theorem values_clean {event : Event} (h : liveDiscipline.Allows w event) :
    ∀ v ∈ event.values, v.hasPlaceholder = false := by
  intro v hv
  cases event with
  | began => cases hv
  | reserved => cases hv
  | ended | read | assigned | defined =>
    obtain rfl := List.mem_singleton.1 hv
    exact liveDiscipline_good h
  | applied =>
    rcases List.mem_cons.1 hv with rfl | hv
    · exact liveDiscipline_good h.1
    · exact liveDiscipline_good (h.2 v hv)
  | bound => exact liveDiscipline_good (h.2 v hv)
  | filled => exact liveDiscipline_good (h.2 v hv).1

/-- The value that an event gives to a name of recursive bindings is the closure bound to
it, unless the event is an assignment. -/
theorem closure_or_assigned {journal mid : List Event} (hmid : ∀ event ∈ mid, event ∈ journal)
    (hallowed : ∀ event ∈ journal, ∃ w, liveDiscipline.Allows w event) {id : FrameId} {x : String}
    {v : Value} (h : ∃ event ∈ mid, event.Gives id x v) :
    (∃ f inner names vs s, v = .closure f inner ∧ inner.inner = id ∧ (x, v) ∈ names.zip vs ∧
        .filled inner names vs s ∈ mid) ∨
      .assigned id x v ∈ mid := by
  obtain ⟨event, hmem, hgives⟩ := h
  cases event with
  | assigned =>
    obtain ⟨rfl, rfl, rfl⟩ := hgives
    exact .inr hmem
  | filled inner names vs s =>
    obtain ⟨w, -, hvs⟩ := hallowed _ (hmid _ hmem)
    obtain ⟨-, f, hf⟩ := hvs v (List.of_mem_zip hgives.2).2
    exact .inl ⟨f, inner, names, vs, s, hf, hgives.1, hgives.2, hmem⟩
  | _ => exact hgives.elim

/-- **No program sees the placeholder of recursive bindings.**  Run any texts from a new
session, and note down what happens.  Then

* with a journal the session does what it does without one;
* no event shows a value that has a placeholder in it;
* whenever the evaluation of an expression begins, no variable in its reach holds
  a placeholder, unless the expression is a lambda expression, which looks nothing
  up;
* at the end no variable in the reach of the globals holds a placeholder;
* a look-up of a name of recursive bindings, whose frame was made before, yields
  the closure that was bound to it or a value that was assigned to it since. -/
theorem placeholder_is_never_seen (console : Console) (limits : Limits) (settings : Settings)
    (disk : Disk) (texts : List (String × String)) :
    let watched := (watchedTwin.session console limits settings).runTexts disk texts
    let plain := (Session.initial Language.functional console limits settings).runTexts disk texts
    let journal := watched.state.machine.journal
    Agree (fun s' s => watchedTwin.plain s' = s) Eq watched plain ∧
    (∀ event ∈ journal, ∀ v ∈ event.values, v.hasPlaceholder = false) ∧
    (∀ e env s, .began e env s ∈ journal → e.isLambda = true ∨ s.Clean env.frames) ∧
    Store.Clean plain.state.machine.memory.store Env.globals.frames ∧
    ∀ later mid before inner names s x v,
      journal = later ++ .read inner.inner x v :: (mid ++ .reserved inner names s :: before) →
      x ∈ names →
        (∃ f inner' names' vs s', v = .closure f inner' ∧ inner'.inner = inner.inner ∧
            (x, v) ∈ names'.zip vs ∧ .filled inner' names' vs s' ∈ mid) ∨
          .assigned inner.inner x v ∈ mid := by
  intro watched plain journal
  obtain ⟨hagree, w, hw, hwatches⟩ :=
    liveDiscipline_serves.runTexts console limits settings disk texts
  have hallowed : ∀ event ∈ journal, ∃ w, liveDiscipline.Allows w event := hwatches.sound.allowed
  have hvalues : ∀ event ∈ journal, ∀ v ∈ event.values, v.hasPlaceholder = false := by
    intro event hevent
    obtain ⟨w, hallows⟩ := hallowed event hevent
    exact values_clean hallows
  refine ⟨hagree, hvalues, ?_, ?_, ?_⟩
  · intro e env s hbegan
    obtain ⟨w, hlambda | ⟨hscope, hholds⟩⟩ := hallowed _ hbegan
    · exact .inl hlambda
    · exact .inr (clean_of_holds hholds hscope)
  · refine clean_of_holds hwatches.holds fun id hid => ?_
    obtain rfl := List.mem_singleton.1 hid
    exact Ledger.getElem?_of_le hw rfl
  · intro later mid before inner names s x v hjournal hx
    have hread : v.hasPlaceholder = false := by
      refine hvalues (.read inner.inner x v) ?_ v (List.mem_singleton.2 rfl)
      rw [hjournal]
      exact List.mem_append_right _ List.mem_cons_self
    have hmid : ∀ event ∈ mid, event ∈ journal := by
      intro event hevent
      rw [hjournal]
      exact List.mem_append_right _ (List.mem_cons_of_mem _ (List.mem_append_left _ hevent))
    rcases hwatches.sound.recorded.read_of_reserved hjournal hx with rfl | hgives
    · cases hread
    · exact closure_or_assigned hmid hallowed hgives

/-- A frame of recursive bindings is reserved and filled, and the names `f` and `x` are
looked up; with one level of depth the frame is given up. -/
theorem placeholder_is_never_seen_letrec :
    let texts := [("", "(letrec ((f (lambda (x) x))) (f 1))")]
    let run := (watchedTwin.session .empty ⟨9, 9⟩ ⟨.off, .shown⟩).runTexts .empty texts
    let short := (watchedTwin.session .empty ⟨1, 9⟩ ⟨.off, .shown⟩).runTexts .empty texts
    ((run.state.machine.journal.filter (!·.quiet)).length = 4 ∧
      ∀ event ∈ run.state.machine.journal, ∀ v ∈ event.values, v.hasPlaceholder = false) ∧
    ((short.state.machine.journal.filter (!·.quiet)).length = 1 ∧
      ∀ event ∈ short.state.machine.journal, ∀ v ∈ event.values, v.hasPlaceholder = false) := by
  intro texts run short
  refine ⟨⟨by decide +kernel, ?_⟩, by decide +kernel, ?_⟩
  · exact (placeholder_is_never_seen .empty ⟨9, 9⟩ ⟨.off, .shown⟩ .empty texts).2.1
  · exact (placeholder_is_never_seen .empty ⟨1, 9⟩ ⟨.off, .shown⟩ .empty texts).2.1

end Primer.Functional
