/-
Primer/Proofs/Functional/Session.lean

Sessions of the functional language that keep a journal.

A discipline that holds of a new interpreter and of every form that the language
accepts (`Discipline.Serves`) is kept in the course of any session: run with a
journal the session does what it does without one, and at its end the store and
the journal are as the discipline wants them (`Serves.runTexts`).
-/
import Primer.Proofs.Functional.Closed
import Primer.Proofs.Functional.Discipline

namespace Primer.Functional

open Outcome

variable {W : Type} [Preorder W] {D : Discipline W} {start w : W} {r : Watched} {m : State}

/-- A discipline that is kept from a new interpreter on, at the world `start`. -/
structure Discipline.Serves (D : Discipline W) (start : W) : Prop extends D.Kept where
  initial : D.Holds start Memory.initial.store
  exp : ∀ {w form e} next, start ≤ w → Language.functional.Accepts form → e ∈ form.exps →
    D.scope w (e.labelled next).1 .globals
  function : ∀ {w name f} next, start ≤ w →
    Language.functional.Accepts (.definition (.function name f)) → f.formals.Nodup →
      D.scope w (f.labelled next).1.toExp .globals
  shape_define : ∀ {w s} name v, D.shape w s → D.shape w (s.define .globals name v)
  /-- the journal begins with nothing but the global frame -/
  first : D.first = 1

/-- A state with a journal goes with the same state without one. -/
def Discipline.Follows (D : Discipline W) (start : W) (r : Watched) (m : State) : Prop :=
  ∃ w, start ≤ w ∧ D.Watches w r m

namespace Discipline.Serves

theorem watchGlobal (hD : D.Serves start) (hw : start ≤ w) (hm : D.Watches w r m)
    {form : Form Exp Lambda} (hform : Language.functional.Accepts form) {e : Exp}
    (he : e ∈ form.exps) (limits : Limits) :
    Match D.Watches D.Same w (watchGlobal limits e r) (evalGlobal limits e m) := by
  have hscope := hD.exp m.memory.nextLabel hw hform he
  obtain ⟨rfl, hholds, hsound⟩ := hm
  have hloaded : D.Watches w (r.withPlain (State.load r.plain e).2) (State.load r.plain e).2 :=
    ⟨rfl, hholds, hsound⟩
  exact hD.watch limits limits.depth w _ .globals _ _ hloaded hscope

theorem holds_defineGlobal (hD : D.Serves start) (hm : D.Holds w m.memory.store) (name : String)
    {v : Value} (hv : D.Good w v) : D.Holds w (m.defineGlobal name v).memory.store := by
  refine ⟨hD.shape_define name v hm.shape, fun id hid b hb => ?_⟩
  rw [show (m.defineGlobal name v).memory.store.frame id = _ from Store.frame_update_eq ..] at hb
  split at hb
  · next hglobal =>
    rcases Bindings.mem_set hb with hb | rfl
    · exact hm.values _ (hglobal.1 ▸ hid) b hb
    · exact hv
  · exact hm.values id hid b hb

/-- A global name that is bound, with what is printed then. -/
theorem bindAndEcho (hD : D.Serves start) (hm : D.Watches w r m) (echo : Echo) (name : String)
    {v : Value} (hv : D.Good w v) (line : Unit → String) :
    Match D.Watches D.Same w (watchBindAndEcho echo name v line r)
      (bindAndEcho echo name v line m) := by
  have hholds := hD.holds_defineGlobal hm.holds name hv
  have hsound : D.Sound (r.note (.defined name v)).journal (m.defineGlobal name v).memory.store :=
    ⟨List.forall_mem_cons.2 ⟨⟨w, hv⟩, hm.sound.allowed⟩,
      (hm.sound.recorded.defineGlobal name v).note rfl⟩
  have hecho := Machine.match_echo (S := D.Watches) (w := w) (r := r.note (.defined name v))
    (m := m.defineGlobal name v) (fun console => ⟨rfl, hholds, hsound⟩) echo line
  rw [watchBindAndEcho, Machine.unnoted, Machine.plain_note, hm.plain, Functional.bindAndEcho,
    mapState_map]
  exact hecho.map fun w' hw' _ _ _ => ⟨rfl, hD.good_mono hw' hv⟩

theorem define (hD : D.Serves start) (hw : start ≤ w) (hm : D.Watches w r m)
    {d : Definition Exp Lambda} (hd : Language.functional.Accepts (.definition d))
    (limits : Limits) (echo : Echo) :
    Match D.Watches D.Same w (watchDefine limits echo d r) (define limits echo d m) := by
  cases d with
  | val name e =>
    refine (hD.watchGlobal hw hm hd (List.mem_singleton.2 rfl) limits).andThen ?_
    rintro w₁ - v _ r₁ m₁ hm₁ ⟨rfl, hv⟩
    exact hD.bindAndEcho hm₁ echo name hv _
  | exp e =>
    refine (hD.watchGlobal hw hm hd (List.mem_singleton.2 rfl) limits).andThen ?_
    rintro w₁ - v _ r₁ m₁ hm₁ ⟨rfl, hv⟩
    exact hD.bindAndEcho hm₁ echo itName hv _
  | function name f =>
    simp only [watchDefine, Functional.define]
    cases hrepeated : repeated? f.formals with
    | some formal => exact .fault le_rfl hm
    | none =>
      have hscope := hD.function m.memory.nextLabel hw hd (repeated?_eq_none_iff.1 hrepeated)
      obtain ⟨rfl, hholds, hsound⟩ := hm
      have hloaded : D.Watches w (r.withPlain (State.loadLambda r.plain f).2)
          (State.loadLambda r.plain f).2 := ⟨rfl, hholds, hsound⟩
      exact hD.bindAndEcho hloaded echo name (.closure hscope) _

/-- A match at some world above the start, where worlds are no longer needed. -/
theorem agree_of_match {α β : Type} {V : W → α → β → Prop} {V' : α → β → Prop}
    (hw : start ≤ w) (hV : ∀ w a b, V w a b → V' a b) {o : Outcome Watched α}
    {o' : Outcome State β} (h : Match D.Watches V w o o') : Agree (D.Follows start) V' o o' := by
  cases h with
  | value hle hm hv => exact .value le_rfl ⟨_, hw.trans hle, hm⟩ (hV _ _ _ hv)
  | fault hle hm => exact .fault le_rfl ⟨_, hw.trans hle, hm⟩
  | unfinished hle hm => exact .unfinished le_rfl ⟨_, hw.trans hle, hm⟩

/-- Sessions with a journal follow those without. -/
theorem follows (hD : D.Serves start) : watchedTwin.Follows (D.Follows start) where
  console := by
    rintro r m ⟨w, -, hm⟩
    exact congrArg Machine.console hm.plain
  withConsole := by
    rintro r m ⟨w, hw, rfl, hholds, hsound⟩ console
    exact ⟨w, hw, rfl, hholds, hsound⟩
  resetTrace := by
    rintro r m ⟨w, hw, rfl, hholds, hsound⟩
    exact ⟨w, hw, rfl, hholds, hsound⟩
  define := by
    rintro r m limits echo d ⟨w, hw, hm⟩ hd
    have hdefine : Agree (D.Follows start) Eq (watchDefine limits echo d r)
        (Functional.define limits echo d m) :=
      agree_of_match hw (fun _ _ _ hv => hv.1) (hD.define hw hm hd limits echo)
    exact hdefine.map fun _ _ _ _ _ => rfl
  eval := by
    rintro r m limits t e ⟨w, hw, hm⟩ ht he
    exact agree_of_match hw (fun _ _ _ hv => hv.1) (hD.watchGlobal hw hm ht he limits)

end Discipline.Serves

/-- **The course of a session.**  With a journal a session does what it does without one,
and at the end the store and the journal are as the discipline wants them. -/
theorem Discipline.Serves.runTexts (hD : D.Serves start) (console : Console) (limits : Limits)
    (settings : Settings) (disk : Disk) (texts : List (String × String)) :
    let watched := (watchedTwin.session console limits settings).runTexts disk texts
    let plain := (Session.initial Language.functional console limits settings).runTexts disk texts
    Agree (fun s' s => watchedTwin.plain s' = s) Eq watched plain ∧
      ∃ w, start ≤ w ∧ D.Watches w watched.state.machine plain.state.machine := by
  have hstart : D.Watches start (State.initial console).journaled (State.initial console) :=
    .journaled Nat.zero_lt_one hD.first.symm hD.initial
  refine hD.follows.runTexts_session ?_ console ⟨start, le_rfl, hstart⟩ limits settings disk texts
  rintro r m ⟨w, -, hm⟩
  exact hm.plain

end Primer.Functional
