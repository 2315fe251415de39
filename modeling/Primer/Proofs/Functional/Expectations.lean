/-
Primer/Proofs/Functional/Expectations.lean

What a test that two values are equal shows if they are not.

The message of such a test has the texts of both values in it.  Data can be told from their
texts if the names of their symbols are such as can be read.  In the course of a session this
is so: the symbols in all values come from quotations (`quotationInvariant`), and no value
holds the placeholder of recursive bindings, which has a text but is not even equal to
itself (`liveDiscipline`).  Both hold from form to form (`keptByReading_sound`).  So the
message never shows the same text twice, unless a function is part of one of the values
(`printed_data_are_told_apart`).
-/
import Primer.Proofs.Balance
import Primer.Proofs.Functional.Printing
import Primer.Proofs.Functional.Quotations

namespace Primer

open Outcome

namespace Functional

/-! ### What a session keeps -/

/-- All symbols in sight can be read and are not the dot, and no frame that was not given up
holds a placeholder. -/
structure Sound (w : Ledger Bool) (m : State) : Prop where
  names : (quotationInvariant Nameable).Holds m
  live : liveDiscipline.Holds w m.memory.store
  globals : w.entries[0]? = some true

/-- The same for a value. -/
structure SoundValue (w : Ledger Bool) (v : Value) : Prop where
  names : (quotationInvariant Nameable).value v
  live : liveDiscipline.Good w v

namespace Sound

variable {w : Ledger Bool} {m m' : State} {v : Value} {e : Exp}

theorem of_store_eq (h : Sound w m) (hstore : m'.memory.store = m.memory.store) : Sound w m' := by
  obtain ⟨hnames, hlive, hglobals⟩ := h
  unfold Invariant.Holds at hnames
  rw [← hstore] at hnames hlive
  exact ⟨hnames, hlive, hglobals⟩

theorem size_pos (h : Sound w m) : 0 < m.memory.store.frames.size := by
  have hsize : w.entries.length = m.memory.store.frames.size := h.live.shape
  rw [← hsize]
  exact (List.getElem?_eq_some_iff.1 h.globals).1

/-- The global frame was not given up. -/
theorem scope_globals (h : Sound w m) (e : Exp) : liveDiscipline.scope w e .globals := by
  intro id hid
  obtain rfl := List.mem_singleton.1 hid
  exact h.globals

theorem evalGlobal (h : Sound w m) (he : e.QuotesOnly Nameable) (limits : Limits) :
    ∃ w', Sound w' (evalGlobal limits e m).state ∧
      ∀ v s, Functional.evalGlobal limits e m = .value v s → SoundValue w' v := by
  have hloaded : Sound w (m.load e).2 := h.of_store_eq rfl
  have hscope : (quotationInvariant Nameable).scope (m.load e).1 .globals :=
    (Exp.quotesOnly_labelled _ e).2 he
  have hkeeps := Invariant.eval hloaded.names hscope limits limits.depth
  obtain ⟨w', hw, hlive, hgood⟩ := liveDiscipline_kept.eval_of_pos limits limits.depth
    hloaded.size_pos hloaded.live (hloaded.scope_globals (m.load e).1)
  refine ⟨w', ⟨hkeeps.state, hlive, Ledger.getElem?_of_le hw h.globals⟩, fun v s heval => ?_⟩
  exact ⟨(hkeeps.of_value heval).2, hgood v s heval⟩

theorem defineGlobal (h : Sound w m) (name : String) (hv : SoundValue w v) :
    Sound w (m.defineGlobal name v) where
  names := Store.Keeping.update h.names 0 name hv.names
  live := liveDiscipline_serves.holds_defineGlobal h.live name hv.live
  globals := h.globals

theorem bindAndEcho (h : Sound w m) (echo : Echo) (name : String) (hv : SoundValue w v)
    (line : Unit → String) : Sound w (bindAndEcho echo name v line m).state :=
  (h.defineGlobal name hv).of_store_eq (store_bindAndEcho echo name v line m)

/-- A definition that was read, however it ends. -/
theorem define (h : Sound w m) {d : Definition Exp Lambda}
    (hd : Language.functional.Reads (.definition d)) (limits : Limits) (echo : Echo) :
    ∃ w', Sound w' (define limits echo d m).state := by
  obtain ⟨hexps, hfunction⟩ := quotesOnly_of_reads hd
  -- a global name bound to the value of an expression
  have hbind : ∀ (e : Exp) (name : String) (line : Value → Unit → String),
      e.QuotesOnly Nameable → ∃ w', Sound w' ((Functional.evalGlobal limits e m).andThen
        fun v m => Functional.bindAndEcho echo name v (line v) m).state := by
    intro e name line he
    obtain ⟨w', hstate, hvalue⟩ := h.evalGlobal he limits
    refine ⟨w', ?_⟩
    cases heval : Functional.evalGlobal limits e m with
    | value v s =>
      rw [heval] at hstate
      exact hstate.bindAndEcho echo name (hvalue v s heval) (line v)
    | fault err s =>
      rw [heval] at hstate
      exact hstate
    | unfinished s =>
      rw [heval] at hstate
      exact hstate
  cases d with
  | val name e => exact hbind e name _ (hexps e (by simp [Form.exps, Definition.exps]))
  | exp e => exact hbind e itName _ (hexps e (by simp [Form.exps, Definition.exps]))
  | function name f =>
    rw [Functional.define]
    cases repeated? f.formals with
    | some formal => exact ⟨w, h⟩
    | none =>
      have hloaded : Sound w (m.loadLambda f).2 := h.of_store_eq rfl
      have hbody : (m.loadLambda f).1.toExp.QuotesOnly Nameable :=
        Exp.quotesOnly_lambda.2 ((Exp.quotesOnly_labelled _ f.body).2 (hfunction name f rfl))
      refine ⟨w, hloaded.bindAndEcho echo name ⟨?_, .closure (hloaded.scope_globals _)⟩ _⟩
      exact (quotationInvariant Nameable).closure.2 hbody

theorem initial (console : Console) : Sound ⟨[true]⟩ (.initial console) where
  names := by
    refine ⟨fun _ _ => trivial, fun id _ b hb => ?_⟩
    obtain ⟨p, hp⟩ := primitive_of_mem_initial hb
    rw [hp]
    simp [quotationInvariant, Value.symbols, Value.AllClosures, Value.closures]
  live := liveDiscipline_serves.initial
  globals := rfl

end Sound

/-- Whatever a text has a session do, the values in sight stay sound. -/
theorem keptByReading_sound :
    Session.KeptByReading (L := .functional) fun m => ∃ w, Sound w m where
  define limits echo d m hd := by
    rintro ⟨w, hm⟩
    obtain ⟨w', hw'⟩ := hm.define hd limits echo
    refine leaves_of_state ⟨w', ?_⟩
    show Sound w' ((Functional.define limits echo d m).map fun _ => ()).state
    rw [state_map]
    exact hw'
  eval limits t e m ht he := by
    rintro ⟨w, hm⟩
    have hquotes := (quotesOnly_of_reads ht).1 e he
    obtain ⟨w', hw', -⟩ := hm.evalGlobal hquotes limits
    exact leaves_of_state ⟨w', hw'⟩
  console m c := by
    rintro ⟨w, hm⟩
    exact ⟨w, hm.of_store_eq rfl⟩
  reset m := by
    rintro ⟨w, hm⟩
    exact ⟨w, hm.of_store_eq rfl⟩

end Functional

/-! ### The expressions that a session evaluates -/

/-- The expressions that a session evaluates at top level for a task which it begins in the
session `s`, each with the machine by then. -/
inductive Session.Evaluates {L : Language} (s : Session L) :
    Task L → L.Exp → Machine L.Memory → Prop
  | definition {entry : Entry} {d : Definition L.Exp L.Function} {e : L.Exp} :
      L.form? entry = some (.definition d) → e ∈ d.exps → Evaluates s (.read entry) e s.machine
  | first (t : UnitTest L.Exp) : Evaluates s (.test t) t.first s.machine
  | second {e e' : L.Exp} {v : L.Value} {m : Machine L.Memory} :
      L.eval s.limits e s.machine = .value v m → Evaluates s (.test (.expect e e')) e' m

theorem Session.tryEval_of_value {L : Language} {s : Session L} {e : L.Exp} {v : L.Value}
    {m : Machine L.Memory} (heval : L.eval s.limits e s.machine = .value v m)
    (counted : Summary) : s.tryEval e counted = .value (some v, counted) (s.withMachine m) := by
  rw [Session.tryEval, heval]

/-- A test that comes to two values. -/
theorem Session.runTest_expect {L : Language} {s : Session L} {e e' : L.Exp} {v v' : L.Value}
    {m m' : Machine L.Memory} (heval : L.eval s.limits e s.machine = .value v m)
    (heval' : L.eval s.limits e' m = .value v' m') (counted : Summary) :
    s.runTest (.expect e e') counted = .value
      (if L.equal v v' then .passed
        else .failed ("Check-expect failed: expected " ++ L.expText e ++ " to evaluate to " ++
          L.valueText v' ++ ", but it's " ++ L.valueText v ++ "."), counted)
      (s.withMachine m') := by
  have hfirst : s.tryEval e counted = .value (some v, counted) (s.withMachine m) :=
    Session.tryEval_of_value heval counted
  have hsecond : (s.withMachine m).tryEval e' counted
      = .value (some v', counted) (s.withMachine m') :=
    Session.tryEval_of_value heval' counted
  simp only [Session.runTest, hfirst, hsecond, andThen_value]
  split <;> rfl

namespace Functional

/-- The evaluation of an expression at top level. -/
def Evaluation.top (limits : Limits) (e : Exp) (m : State) : Evaluation :=
  ⟨limits.depth, (m.load e).1, .globals, (m.load e).2⟩

/-- What a session evaluates quotes only names that can be read, in a sound state. -/
theorem sound_of_evaluates {s : Session .functional} {task : Session.Task .functional} {e : Exp}
    {m : State} {w : Ledger Bool} (h : s.Evaluates task e m)
    (htask : ∀ form ∈ task.form?, Language.functional.Reads form) (hs : Sound w s.machine) :
    e.QuotesOnly Nameable ∧ ∃ w', Sound w' m := by
  cases h with
  | definition hform he => exact ⟨(quotesOnly_of_reads (htask _ hform)).1 e he, w, hs⟩
  | first t =>
    refine ⟨(quotesOnly_of_reads (htask _ rfl)).1 _ ?_, w, hs⟩
    cases t <;> exact List.mem_cons_self
  | @second e₁ _ v _ heval =>
    have hexps := (quotesOnly_of_reads (htask _ rfl)).1
    obtain ⟨w', hstate, -⟩ := hs.evalGlobal (hexps e₁ List.mem_cons_self) s.limits
    have heval' : evalGlobal s.limits e₁ s.machine = .value v m := heval
    rw [heval'] at hstate
    exact ⟨hexps e (List.mem_cons_of_mem _ List.mem_cons_self), w', hstate⟩

/-! ### Functions in values -/

/-- Whether a value is a function or has one inside a pair. -/
def Value.hasFunction : Value → Bool
  | .pair a d => a.hasFunction || d.hasFunction
  | .closure .. => true
  | .primitive _ => true
  | _ => false

theorem SoundValue.isData {w : Ledger Bool} {v : Value} (h : SoundValue w v)
    (hfunction : v.hasFunction = false) : v.IsData Nameable := by
  have hnames := h.names.1
  have hplaceholder := liveDiscipline_good h.live
  clear h
  induction v with
  | number n => exact .number n
  | bool b => exact .bool b
  | symbol name => exact .symbol (hnames name (List.mem_singleton.2 rfl))
  | nil => exact .nil
  | pair a d iha ihd =>
    obtain ⟨hfa, hfd⟩ := Bool.or_eq_false_iff.1 hfunction
    obtain ⟨hpa, hpd⟩ := Bool.or_eq_false_iff.1 hplaceholder
    exact .pair (iha hfa (fun name hname => hnames name (List.mem_append_left _ hname)) hpa)
      (ihd hfd (fun name hname => hnames name (List.mem_append_right _ hname)) hpd)
  | closure f env => cases hfunction
  | primitive p => cases hfunction
  | unspecified => cases hplaceholder

/-! ### Texts tell values apart -/

theorem text_eq_iff_equal {v w : Value} (hv : v.IsData Nameable) (hw : w.IsData Nameable) :
    v.text = w.text ↔ v.equal w = true := by
  have hnameable : ∀ name, Nameable name → IsSymbol name ∧ name ≠ "." :=
    fun name hname => ⟨readable_iff_isSymbol.1 hname.1, hname.2⟩
  rw [(hv.printable hnameable).text_inj (hw.printable hnameable), hv.equal_iff]

/-- **Texts tell data apart.**

* Two values that are made of numbers, truth values, the empty list, pairs and symbols have
  the same text exactly if they are equal.  Symbols have to have names here that can be read,
  other than the dot.
* In the life of a session that was started fresh, whenever it evaluates an expression, for a
  definition or for a test, in a text or in a file inside it, which is run as a text, the
  symbols in the value of this expression have such names, and so have the symbols in the value
  of every evaluation inside.
* If a test comes to two values for equality, and no function is part of either, it passes
  exactly if their texts are the same.  So if it fails the two texts in the message
  differ. -/
theorem printed_data_are_told_apart :
    (∀ v w : Value, v.IsData Nameable → w.IsData Nameable →
      (v.text = w.text ↔ v.equal w = true)) ∧
    (∀ disk path (t : Session .functional), t.runFile disk path = t.runFileText disk path) ∧
    ∀ (s : Session .functional), Session.Lived s →
      ∀ disk task s', Session.Meanwhile disk s task s' →
        (∀ e m, s'.Evaluates task e m →
          ∀ c, (Evaluation.top s'.limits e m).Includes s'.limits c →
            ∀ v m', c.run s'.limits = .value v m' → ∀ name ∈ v.symbols, Nameable name) ∧
        ∀ e e' v v' m m', task = .test (.expect e e') →
          evalGlobal s'.limits e s'.machine = .value v m →
          evalGlobal s'.limits e' m = .value v' m' →
          v.hasFunction = false → v'.hasFunction = false →
            ∀ counted, s'.runTest (.expect e e') counted = .value
              (if v.text = v'.text then .passed
                else .failed ("Check-expect failed: expected " ++ e.text ++ " to evaluate to " ++
                  v'.text ++ ", but it's " ++ v.text ++ "."), counted)
              (s'.withMachine m') := by
  refine ⟨fun v w => text_eq_iff_equal, Session.runFile_eq, fun s hs disk task s' hmeanwhile => ?_⟩
  have hsound : ∃ w, Sound w s.machine :=
    hs.machine keptByReading_sound fun console => ⟨_, Sound.initial console⟩
  obtain ⟨w, hs'⟩ := hmeanwhile.machine keptByReading_sound hsound
  have htask := hmeanwhile.reads
  refine ⟨fun e m hevaluates c hincludes v m' hrun => ?_, ?_⟩
  · obtain ⟨hquotes, w', hm⟩ := sound_of_evaluates hevaluates htask hs'
    have hadmits : (quotationInvariant Nameable).Admits (Evaluation.top s'.limits e m) :=
      ⟨hm.names, (Exp.quotesOnly_labelled _ e).2 hquotes⟩
    obtain ⟨hstate, hscope⟩ := Invariant.admits_of_includes hadmits hincludes
    exact (Invariant.holds_of_eval hstate hscope hrun).2.1
  · rintro e e' v v' m m' rfl heval heval' hfunction hfunction' counted
    obtain ⟨he, -⟩ := sound_of_evaluates (.first (.expect e e')) htask hs'
    obtain ⟨he', -⟩ := sound_of_evaluates (.second heval) htask hs'
    obtain ⟨w₁, hm, hv⟩ := hs'.evalGlobal he s'.limits
    have heval₀ : evalGlobal s'.limits (UnitTest.expect e e').first s'.machine = .value v m := heval
    rw [heval₀] at hm
    obtain ⟨w₂, -, hv'⟩ := Sound.evalGlobal hm he' s'.limits
    have htexts := text_eq_iff_equal ((hv v m heval₀).isData hfunction)
      ((hv' v' m' heval').isData hfunction')
    rw [Session.runTest_expect heval heval' counted]
    congr 2
    exact if_congr htexts.symm rfl rfl

/-- A text with a test that expects a pair of two symbols to be the list of both. -/
theorem exists_meanwhile_expect_pair :
    let e : Exp := .apply (.var "cons") [.literal (.symbol "a"), .literal (.symbol "b")]
    let e' : Exp := .literal (.list [.symbol "a", .symbol "b"])
    ∃ s' m m', Session.Meanwhile .empty (.initial .functional .empty ⟨9, 9⟩ ⟨.off, .shown⟩)
        (.test (.expect e e')) s' ∧
      evalGlobal s'.limits e s'.machine = .value (.pair (.symbol "a") (.symbol "b")) m ∧
      evalGlobal s'.limits e' m =
        .value (.pair (.symbol "a") (.pair (.symbol "b") .nil)) m' := by
  intro e e'
  let entry : Entry := ⟨⟨"u", 1⟩, .ok (.list [.symbol "check-expect",
    .list [.symbol "cons", .list [.symbol "quote", .symbol "a"],
      .list [.symbol "quote", .symbol "b"]],
    .list [.symbol "quote", .list [.symbol "a", .symbol "b"]]])⟩
  have hread : readAll "u" "(check-expect (cons 'a 'b) '(a b))" = [entry] := rfl
  -- to read the test leaves the session as it is, so it can stay a variable here
  have hcomes : ∀ s : Session .functional, Session.ComesTo .empty "u"
      "(check-expect (cons 'a 'b) '(a b))" s (.test (.expect e e'))
        { s with mode := .testing } := by
    intro s
    refine @Session.ComesTo.test _ _ _ _ _ [] [] _ ⟨.zero, [.expect e e']⟩ (0, .zero) s _ ?_ rfl rfl
    rw [hread]
    rfl
  exact ⟨_, _, _, .source (.here (hcomes _)), rfl, rfl⟩

/-- A pair of two symbols is not the list of both, and the message of the test that expects
it shows two texts. -/
theorem printed_data_are_told_apart_pair :
    let ab : Value := .pair (.symbol "a") (.symbol "b")
    let list : Value := .pair (.symbol "a") (.pair (.symbol "b") .nil)
    ab.IsData Nameable ∧ list.IsData Nameable ∧ (ab.text = list.text ↔ ab.equal list = true) ∧
      ∃ e e' s' m', Session.Meanwhile .empty (.initial .functional .empty ⟨9, 9⟩ ⟨.off, .shown⟩)
          (.test (.expect e e')) s' ∧
        s'.runTest (.expect e e') .zero = .value (.failed ("Check-expect failed: expected " ++
          "(cons 'a 'b) to evaluate to (a b), but it's (a . b)."), .zero) (s'.withMachine m') := by
  intro ab list
  obtain ⟨s', m, m', hmeanwhile, heval, heval'⟩ := exists_meanwhile_expect_pair
  obtain ⟨hnames, hverdict⟩ := printed_data_are_told_apart.2.2 _ (.fresh _ _ _) _ _ _ hmeanwhile
  have hnameable := hnames _ _ (.first _) _ .refl ab m heval
  have ha : Nameable "a" := hnameable "a" (by decide)
  have hb : Nameable "b" := hnameable "b" (by decide)
  have hab : ab.IsData Nameable := .pair (.symbol ha) (.symbol hb)
  have hlist : list.IsData Nameable := .pair (.symbol ha) (.pair (.symbol hb) .nil)
  have htexts : ab.text ≠ list.text := by decide +kernel
  have hrun := hverdict _ _ ab list m m' rfl heval heval' rfl rfl .zero
  rw [if_neg htexts] at hrun
  refine ⟨hab, hlist, printed_data_are_told_apart.1 ab list hab hlist, _, _, s', m', hmeanwhile, ?_⟩
  rw [hrun]
  congr 3

end Functional

end Primer
