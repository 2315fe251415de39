/-
Primer/Proofs/Procedural/Presenting.lean

Evaluation of the procedural language, however its results are presented.

The variables of a call are gone when it ends, so the state at the end does not show
whether one of them was the trace count; the journal of calls does.  Hence all this is
about evaluation with a journal (`tracks_watch`).  Within a call whose scopes do not
have the trace count it can only be a global variable, and these stay.
-/
import Primer.Proofs.Presenting
import Primer.Proofs.Procedural.Journal

namespace Primer.Procedural

open Outcome

/-! ### Variables that were ever bound -/

/-- Whether the scopes of a call have a variable of this name. -/
def Scopes.binds (x : String) (s : Scopes) : Bool := s.locals.has x || s.formals.has x

/-- Whether a variable of this name was ever bound: a global variable, which is never
unbound, or a variable of one of the calls that were made. -/
def binds (x : String) (m : Journaled Memory Call) : Bool :=
  m.memory.globals.has x || m.journal.any fun c => c.scopes.binds x

theorem binds_eq_true_iff {x : String} {m : Journaled Memory Call} :
    binds x m = true
      ↔ m.memory.globals.has x = true ∨ ∃ c ∈ m.journal, c.scopes.binds x = true := by
  simp [binds]

/-- An assignment adds no name to the scopes, and takes no name from the globals. -/
theorem binds_assign? {x y : String} {n : Number} {m m' : Memory} (h : m.assign? y n = some m') :
    m'.scopes.binds x = m.scopes.binds x ∧ (m.globals.has x = true → m'.globals.has x = true) := by
  have hset : ∀ bs : Bindings Number, bs.has y = true → (bs.set y n).has x = bs.has x := by
    intro bs hy
    rw [Bindings.has_set]
    by_cases hxy : y = x
    · subst hxy
      simp [hy]
    · simp [hxy]
  unfold Memory.assign? at h
  split at h
  · next hy =>
    cases h
    exact ⟨by simp [Scopes.binds, hset _ hy], id⟩
  · split at h
    · next hy =>
      cases h
      exact ⟨by simp [Scopes.binds, hset _ hy], id⟩
    · split at h
      · next hy =>
        cases h
        exact ⟨rfl, fun hx => (hset _ hy).trans hx⟩
      · cases h

/-- The trace count is not among the variables of the call in progress. -/
def Clear (m : Journaled Memory Call) : Prop := m.memory.scopes.binds Trace.countName = false

/-- The two computations agree unless the first binds the trace count. -/
abbrev Tracks {α : Type} (same : Prop) (run run' : Watched → Outcome Watched α) : Prop :=
  Machine.Tracks (fun memory => binds Trace.countName memory = true) Clear same run run'

variable {same : Prop}

theorem plain_memory_eq {r r' : Watched} (h : r.Presents Clear same r') :
    r'.plain.memory = r.plain.memory :=
  congrArg Journaled.memory h.memory.symm

/-! ### Evaluation -/

theorem Primitive.run_presents (p : Primitive) (args : List Number) {out out' : Channel}
    (h : out.Alike same out') :
    Agree (Channel.Alike same) Eq (p.run args out) (p.run args out') := by
  unfold run
  split
  case h_1 | h_2 | h_3 | h_4 => exact .ofExcept (SameResult.refl _) h
  case h_5 | h_6 | h_7 => exact .value le_rfl h rfl
  case h_8 | h_9 => exact (h.write _).map fun _ _ _ _ _ => rfl
  case h_10 => exact (h.emitCharacter _).map fun _ _ _ _ _ => rfl
  case h_11 => exact .fault le_rfl h

theorem tracks_applyPrimitive (p : Primitive) (args : List Number) (call : Exp) :
    Tracks same (fun r => r.unnoted (applyPrimitive p args call))
      fun r => r.unnoted (applyPrimitive p args call) := by
  have heq : (fun r : Watched => r.unnoted (applyPrimitive p args call)) = fun r =>
      ((p.run args r.console.out).mapState r.withOut).mapError (Error.inCall call.text) := by
    funext r
    show (applyPrimitive p args call r.plain).mapState r.withPlain = _
    rw [applyPrimitive, show r.plain.console = r.console from rfl]
    cases p.run args r.console.out <;> rfl
  rw [heq]
  exact Machine.tracks_primitive (Primitive.run_presents p args) _

/-- The state with other scopes. -/
def leave (scopes : Scopes) (r : Watched) : Watched :=
  r.withPlain { r.plain with memory := { r.plain.memory with scopes := scopes } }

/-- What runs in scopes of its own and then comes back to those of before.  The scopes it
runs in are free of the trace count, or else that has been noted. -/
theorem tracks_leave {α : Type} {run : Watched → Outcome Watched α} (hrun : Tracks same run run)
    {enter : Watched → Watched}
    (hkeeps : ∀ r, binds Trace.countName r.memory = true →
      binds Trace.countName (enter r).memory = true)
    (henter : ∀ {r r'}, r.Presents Clear same r' →
      binds Trace.countName (enter r).memory = true ∨ (enter r).Presents Clear same (enter r')) :
    Tracks same (fun r => (run (enter r)).mapState (leave r.plain.memory.scopes))
      fun r => (run (enter r)).mapState (leave r.plain.memory.scopes) := by
  -- to come back changes neither the globals nor the journal
  have hleave : ∀ scopes (o : Outcome Watched α), binds Trace.countName o.state.memory = true →
      binds Trace.countName (o.mapState (leave scopes)).state.memory = true := by
    intro scopes o ho
    rw [state_mapState]
    exact ho
  refine ⟨fun r hr => hleave _ _ (hrun.keeps _ (hkeeps r hr)), fun {r r'} h => ?_⟩
  rcases henter h with hbinds | hinside
  · exact .inl (hleave _ _ (hrun.keeps _ hbinds))
  · refine (hrun.agree hinside).imp (hleave _ _) fun hagree => ?_
    rw [plain_memory_eq h]
    refine hagree.mapState fun _ t t' ht => ?_
    exact ht.mapMemory (f := fun memory =>
      ⟨{ memory.memory with scopes := r.plain.memory.scopes }, memory.journal⟩) fun _ => h.inv

theorem tracks_watchCall {body : Exp → Watched → Outcome Watched Number}
    (hbody : ∀ e, Tracks same (body e) (body e)) (p : Procedure) (args : List Number) :
    Tracks same (watchCall body p args) (watchCall body p args) := by
  refine tracks_leave (hbody p.body) (fun r hr => ?_) fun {r r'} h => ?_
  · rcases binds_eq_true_iff.1 hr with hglobal | ⟨c, hc, hbinds⟩
    · exact binds_eq_true_iff.2 (.inl hglobal)
    · exact binds_eq_true_iff.2 (.inr ⟨c, List.mem_cons_of_mem _ hc, hbinds⟩)
  · cases hscopes : (Scopes.ofCall p args).binds Trace.countName with
    | true => exact .inl (binds_eq_true_iff.2 (.inr ⟨_, List.mem_cons_self, hscopes⟩))
    | false =>
      exact .inr (h.mapMemory (f := fun memory => ⟨{ memory.memory with scopes := .ofCall p args },
        ⟨p, args, .ofCall p args⟩ :: memory.journal⟩) fun _ => hscopes)

theorem tracks_watchApply {body : Exp → Watched → Outcome Watched Number}
    (hbody : ∀ e, Tracks same (body e) (body e)) (call : Exp) (f : Function) (args : List Number) :
    Tracks same (watchApply body call f args) (watchApply body call f args) := by
  cases f with
  | procedure p =>
    by_cases hlength : p.formals.length = args.length
    · have heq : watchApply body call (.procedure p) args = watchCall body p args :=
        funext fun r => if_pos hlength
      rw [heq]
      exact tracks_watchCall hbody p args
    · have heq : watchApply body call (.procedure p) args = Outcome.fault _ :=
        funext fun r => if_neg hlength
      rw [heq]
      exact .fault _
  | primitive p => exact tracks_applyPrimitive p args call

theorem binds_watchTraceCount (n : Number) (r : Watched)
    (hr : binds Trace.countName r.memory = true) :
    binds Trace.countName (watchTraceCount n r).memory = true := by
  have hglobals : r.memory.memory.globals.has Trace.countName = true →
      (r.memory.memory.setTraceCount n).globals.has Trace.countName = true := by
    unfold Memory.setTraceCount
    cases h : r.memory.memory.assign? Trace.countName n with
    | none => exact id
    | some m => exact (binds_assign? h).2
  exact binds_eq_true_iff.2 ((binds_eq_true_iff.1 hr).imp_left hglobals)

/-- A call is traced only if the trace count is bound. -/
theorem traceCount_or_binds {r r' : Watched} (h : r.Presents Clear same r') :
    binds Trace.countName r.memory = true ∨
      (r.plain.memory.get? Trace.countName = none ∧
        r'.plain.memory.get? Trace.countName = none) := by
  have hscopes := h.inv
  simp only [Clear, Scopes.binds, Bool.or_eq_false_iff, Bindings.has_eq_false_iff] at hscopes
  -- in scopes without it the trace count can only be a global variable
  rw [plain_memory_eq h]
  simp only [Machine.plain, Memory.get?, hscopes, binds_eq_true_iff, Bindings.has_eq_isSome]
  cases r.memory.memory.globals.get? Trace.countName with
  | none => exact .inr ⟨rfl, rfl⟩
  | some n => exact .inl (.inl rfl)

/-- Evaluation computes the same however results are presented. -/
theorem tracks_watch (l : Limits) (left : Nat) (e : Exp) :
    Tracks same (watch l left e) (watch l left e) := by
  induction left generalizing e with
  | zero => exact .fault _
  | succ left ih =>
    cases e with
    | literal n => exact .value _
    | var x =>
      refine ⟨fun r hr => ?_, fun {r r'} h => .inr ?_⟩
      · simp only [watch]
        split <;> exact hr
      · simp only [watch, plain_memory_eq h]
        cases r.plain.memory.get? x with
        | some n => exact .value le_rfl h rfl
        | none => exact .fault le_rfl h
    | set x e =>
      refine (ih e).andThen fun n => ⟨fun r hr => ?_, fun {r r'} h => .inr ?_⟩
      · cases hx : r.plain.memory.assign? x n with
        | none => exact hr
        | some memory =>
          exact binds_eq_true_iff.2 ((binds_eq_true_iff.1 hr).imp_left (binds_assign? hx).2)
      · rw [plain_memory_eq h]
        cases hx : r.plain.memory.assign? x n with
        | none => exact .fault le_rfl h
        | some memory =>
          exact .value le_rfl (h.mapMemory (f := fun before => ⟨memory, before.journal⟩)
            fun hinv => (binds_assign? hx).1.trans hinv) rfl
    | cond test yes no =>
      refine (ih test).andThen fun n => ?_
      cases isTrue n with
      | true => exact ih yes
      | false => exact ih no
    | loop test body => exact .evalWhile (ih test) (ih body) l.turns
    | block parts => exact .evalLast ih _ parts
    | call function args =>
      let run : Function → Watched → Outcome Watched Number := fun f r =>
        (evalEach (watch l left) args r).andThen fun ns r =>
          Trace.around (r.plain.memory.get? Trace.countName) watchTraceCount
            (fun _ => Trace.callText function (ns.map Number.text)) Number.text
            (watchApply (watch l left) (.call function args) f ns) r
      have hrun : ∀ f, Tracks same (run f) (run f) := fun f =>
        (Outcome.Tracks.evalEach ih args).andThen fun ns =>
          Trace.tracks_around binds_watchTraceCount traceCount_or_binds
            (tracks_watchApply ih _ f ns)
      refine ⟨fun r hr => ?_, fun {r r'} h => ?_⟩
      · simp only [watch]
        cases r.plain.memory.functions.get? function with
        | none => exact hr
        | some f => exact (hrun f).keeps r hr
      · -- the function is looked up in tables that are the same
        simp only [watch, plain_memory_eq h]
        cases r.plain.memory.functions.get? function with
        | none => exact .inr (.fault le_rfl h)
        | some f => exact (hrun f).agree h

theorem tracks_watchGlobal (l : Limits) (e : Exp) :
    Tracks same (watchGlobal l e) (watchGlobal l e) := by
  refine tracks_leave (tracks_watch l l.depth e) (fun r hr => hr) fun {r r'} h => .inr ?_
  exact h.mapMemory (f := fun memory => ⟨{ memory.memory with scopes := .none }, memory.journal⟩)
    fun _ => rfl

/-! ### Definitions -/

/-- To echo needs no journal. -/
theorem unnoted_echo (change : State → State) (echo : Echo) (line : Unit → String) (r : Watched) :
    (r.unnoted fun m => (change m).echo echo line)
      = (r.withPlain (change r.plain)).echo echo line := by
  cases echo with
  | off => rfl
  | on =>
    simp only [Machine.unnoted, Machine.echo, Machine.printLine, Machine.withPlain]
    cases (change r.plain).console.out.writeLine line <;> rfl

/-- A definition takes effect and is then echoed. -/
theorem tracks_effect {echo echo' : Echo} (hecho : same → echo = echo') {f : Memory → Memory}
    (hscopes : ∀ m, (f m).scopes = m.scopes)
    (hglobals : ∀ m x, m.globals.has x = true → (f m).globals.has x = true)
    (line : Unit → String) :
    Tracks same
      (fun r => r.unnoted fun m => Machine.echo { m with memory := f m.memory } echo line)
      fun r => r.unnoted fun m => Machine.echo { m with memory := f m.memory } echo' line := by
  have heq : ∀ echo, (fun r : Watched => r.unnoted fun m : State =>
      Machine.echo { m with memory := f m.memory } echo line)
        = fun r => (r.withPlain { r.plain with memory := f r.plain.memory }).echo echo line :=
    fun echo => funext (unnoted_echo (fun m => { m with memory := f m.memory }) echo line)
  rw [heq, heq]
  have hline : Tracks same (fun r => r.echo echo line) fun r => r.echo echo' line :=
    Machine.tracks_echo hecho line
  refine hline.after (f := fun r => r.withPlain { r.plain with memory := f r.plain.memory })
    (fun r hr => ?_) fun h => ?_
  · exact binds_eq_true_iff.2 ((binds_eq_true_iff.1 hr).imp_left (hglobals _ _))
  · refine h.mapMemory (f := fun memory => ⟨f memory.memory, memory.journal⟩) fun hinv => ?_
    rw [Clear, hscopes]
    exact hinv

theorem tracks_defineGlobal {echo echo' : Echo} (hecho : same → echo = echo') (name : String)
    (n : Number) (line : Unit → String) :
    Tracks same (fun r => r.unnoted fun m => (State.defineGlobal m name n).echo echo line)
      fun r => r.unnoted fun m => (State.defineGlobal m name n).echo echo' line := by
  refine tracks_effect (f := fun memory => { memory with globals := memory.globals.set name n })
    hecho (fun _ => rfl) (fun m x h => ?_) line
  rw [Bindings.has_set, h, Bool.or_true]

theorem tracks_watchDefine {echo echo' : Echo} (hecho : same → echo = echo') (l : Limits)
    (d : Definition Exp Procedure) :
    Tracks same (watchDefine l echo d) (watchDefine l echo' d) := by
  cases d with
  | val name e =>
    exact (tracks_watchGlobal l e).andThen fun n => tracks_defineGlobal hecho name n _
  | function name p =>
    cases hrepeated : repeated? p.formals with
    | some formal =>
      have heq : ∀ echo, watchDefine l echo (.function name p)
          = Outcome.fault (.repeatedParameter formal name) := by
        intro echo
        funext r
        simp only [watchDefine, hrepeated]
      rw [heq, heq]
      exact .fault _
    | none =>
      have heq : ∀ echo, watchDefine l echo (.function name p) = fun r =>
          r.unnoted fun m => (State.defineFunction m name p).echo echo fun _ => name := by
        intro echo
        funext r
        simp only [watchDefine, hrepeated]
      rw [heq, heq]
      exact tracks_effect (f := fun memory =>
        { memory with functions := memory.functions.set name (.procedure p) }) hecho
        (fun _ => rfl) (fun _ _ h => h) _
  | exp e =>
    exact (tracks_watchGlobal l e).andThen fun n => tracks_defineGlobal hecho itName n _

end Primer.Procedural
