/-
Primer/Proofs/Presenting.lean

Computations that differ only in how they present their results.

Two interpreters with the same memory may have consoles of which different things are
wrong, and may or may not echo what they define.  `Machine.Presents` relates such
states, as long as the output of both takes what is written.

There is one way in which a program can notice its diagnostics: the trace of calls is
written there, and a call whose trace cannot be written fails.  But calls are traced
only where a variable holds the trace count.  So two computations agree unless the
first has come to bind that variable, and since nothing is ever unbound the state in
which it ends still shows that it has.  `Outcome.Tracks` says this of two computations
and of any property that is there to stay.
-/
import Primer.Proofs.Steady

namespace Primer

/-! ### Computations that agree unless something has come to be -/

namespace Outcome

variable {σ τ α β ι : Type} {P : σ → Prop} {S : σ → σ → Prop}

/-- From related states the computations agree, unless the first comes to a state with the
property `P`; and `P` is there to stay. -/
structure Tracks (P : σ → Prop) (S : σ → σ → Prop) (run run' : σ → Outcome σ α) : Prop where
  keeps : Keeps P run
  agree : ∀ {s t}, S s t → P (run s).state ∨ Agree S Eq (run s) (run' t)

namespace Tracks

theorem value (a : α) : Tracks P S (.value a) (.value a) :=
  ⟨.value a, fun h => .inr (.value le_rfl h rfl)⟩

theorem fault (e : Error) : Tracks (α := α) P S (.fault e) (.fault e) :=
  ⟨.fault e, fun h => .inr (.fault le_rfl h)⟩

theorem unfinished : Tracks (α := α) P S .unfinished .unfinished :=
  ⟨fun _ hs => hs, fun h => .inr (.unfinished le_rfl h)⟩

/-- One computation after another, or the same after an error. -/
theorem andThen {run run' : σ → Outcome σ α} {next next' : α → σ → Outcome σ β}
    (h : Tracks P S run run') (hnext : ∀ a, Tracks P S (next a) (next' a)) :
    Tracks P S (fun s => (run s).andThen next) fun s => (run' s).andThen next' := by
  refine ⟨h.keeps.andThen fun a => (hnext a).keeps, fun {s t} hst => ?_⟩
  have hagree := h.agree hst
  generalize run s = o at hagree
  generalize run' t = o' at hagree
  rcases hagree with hP | hagree
  · -- the first computation has `P` by now, and what comes next keeps it
    refine .inl ?_
    cases o with
    | value a s => exact (hnext a).keeps s hP
    | fault e s => exact hP
    | unfinished s => exact hP
  · cases hagree with
    | @value _ a _ _ _ _ hs hv =>
      subst hv
      exact (hnext a).agree hs
    | fault _ hs => exact .inr (.fault le_rfl hs)
    | unfinished _ hs => exact .inr (.unfinished le_rfl hs)

theorem evalEach {run run' : ι → σ → Outcome σ α} (h : ∀ a, Tracks P S (run a) (run' a))
    (as : List ι) : Tracks P S (Primer.evalEach run as) (Primer.evalEach run' as) := by
  induction as with
  | nil => exact .value []
  | cons a as ih => exact (h a).andThen fun b => ih.andThen fun bs => .value (b :: bs)

theorem evalLast {run run' : ι → σ → Outcome σ α} (h : ∀ a, Tracks P S (run a) (run' a))
    (last : α) (as : List ι) :
    Tracks P S (Primer.evalLast run last as) (Primer.evalLast run' last as) := by
  induction as generalizing last with
  | nil => exact .value last
  | cons a as ih => exact (h a).andThen fun b => ih b

theorem evalWhile {isTrue : α → Bool} {done : α} {test test' body body' : σ → Outcome σ α}
    (htest : Tracks P S test test') (hbody : Tracks P S body body') (turns : Nat) :
    Tracks P S (Primer.evalWhile isTrue done test body turns)
      (Primer.evalWhile isTrue done test' body' turns) := by
  induction turns with
  | zero => exact .unfinished
  | succ turns ih =>
    refine htest.andThen fun a => ?_
    cases isTrue a with
    | true => exact hbody.andThen fun _ => ih
    | false => exact .value done

theorem map {run run' : σ → Outcome σ α} (h : Tracks P S run run') (g : α → β) :
    Tracks P S (fun s => (run s).map g) fun s => (run' s).map g :=
  h.andThen fun a => .value (g a)

/-- Computations after a change to the states. -/
theorem after {run run' : σ → Outcome σ α} (h : Tracks P S run run') {f f' : σ → σ}
    (hP : ∀ s, P s → P (f s)) (hS : ∀ {s t}, S s t → S (f s) (f' t)) :
    Tracks P S (fun s => run (f s)) fun s => run' (f' s) :=
  ⟨fun s hs => h.keeps (f s) (hP s hs), fun hst => h.agree (hS hst)⟩

end Tracks

end Outcome

open Outcome

/-! ### Machines that present their results in different ways -/

/-- Channels that take what is written, with the same text on them if that is asked. -/
structure Channel.Alike (same : Prop) (c c' : Channel) : Prop where
  takes : c.Open
  takes' : c'.Open
  text : same → c.text = c'.text

namespace Channel.Alike

variable {same : Prop} {c c' : Channel}

theorem wrote (h : c.Alike same c') (s : String) : (c.wrote s).Alike same (c'.wrote s) :=
  ⟨h.takes.wrote s, h.takes'.wrote s, fun hsame => congrArg (· ++ s) (h.text hsame)⟩

theorem writeText (h : c.Alike same c') (text : Unit → String) :
    Agree (Alike same) Eq (c.writeText text) (c'.writeText text) := by
  rw [h.takes.writeText, h.takes'.writeText]
  exact .value le_rfl (h.wrote _) rfl

theorem write (h : c.Alike same c') (s : String) :
    Agree (Alike same) Eq (c.write s) (c'.write s) := by
  unfold Channel.write
  split
  · -- to write nothing is to leave the channel as it is
    exact .value le_rfl h rfl
  · exact h.writeText _

theorem emitCharacter (h : c.Alike same c') (n : Number) :
    Agree (Alike same) Eq (Arithmetic.emitCharacter c n) (Arithmetic.emitCharacter c' n) := by
  unfold Arithmetic.emitCharacter
  cases Arithmetic.character? n with
  | none => exact .fault le_rfl h
  | some character => exact h.write character.toString

end Channel.Alike

/-- States with the same memory, of which `I` holds, and with outputs that are alike. -/
structure Machine.Presents {μ : Type} (I : μ → Prop) (same : Prop) (m m' : Machine μ) : Prop where
  memory : m.memory = m'.memory
  inv : I m.memory
  out : m.console.out.Alike same m'.console.out

/-- From states that differ only in how results are presented the computations agree,
unless the first comes to a memory with the property `P`. -/
abbrev Machine.Tracks {μ α : Type} (P I : μ → Prop) (same : Prop)
    (run run' : Machine μ → Outcome (Machine μ) α) : Prop :=
  Outcome.Tracks (fun m => P m.memory) (Machine.Presents I same) run run'

namespace Machine

variable {μ α : Type} {P I : μ → Prop} {same : Prop} {m m' : Machine μ}

/-- The memory may change in the same way on both sides. -/
theorem Presents.mapMemory (h : m.Presents I same m') {f : μ → μ}
    (hf : I m.memory → I (f m.memory)) :
    Presents I same { m with memory := f m.memory } { m' with memory := f m'.memory } :=
  ⟨congrArg f h.memory, hf h.inv, h.out⟩

theorem Presents.withOut (h : m.Presents I same m') {out out' : Channel}
    (hout : out.Alike same out') : Presents I same (m.withOut out) (m'.withOut out') :=
  ⟨h.memory, h.inv, hout⟩

/-- Primitives with the same result, which write the same. -/
theorem tracks_primitive {run : Channel → Outcome Channel α}
    (hrun : ∀ {out out'}, out.Alike same out' →
      Agree (Channel.Alike same) Eq (run out) (run out')) (f : Error → Error) :
    Machine.Tracks P I same
      (fun m : Machine μ => ((run m.console.out).mapState m.withOut).mapError f)
      fun m => ((run m.console.out).mapState m.withOut).mapError f := by
  refine ⟨fun m hm => ?_, fun {m m'} h => .inr ?_⟩
  · rw [state_mapError, state_mapState]
    exact hm
  · exact Match.mapError (Match.mapState (fun _ _ _ hout => h.withOut hout) (hrun h.out))

/-- Definitions need not be echoed alike, unless the outputs are to be the same. -/
theorem tracks_echo {echo echo' : Echo} (hecho : same → echo = echo') (line : Unit → String) :
    Machine.Tracks P I same (fun m : Machine μ => m.echo echo line) fun m => m.echo echo' line := by
  have hprints : ∀ {m : Machine μ}, m.console.out.Open →
      m.printLine line = .value () (m.withOut (m.console.out.wrote (line () ++ "\n"))) := by
    intro m h
    rw [printLine, Channel.writeLine, h.writeText]
    rfl
  refine ⟨fun m hm => ?_, fun {m m'} h => .inr ?_⟩
  · cases echo with
    | off => exact hm
    | on =>
      simp only [Machine.echo, printLine, state_mapState]
      exact hm
  · cases echo with
    | on =>
      cases echo' with
      | on =>
        simp only [Machine.echo, hprints h.out.takes, hprints h.out.takes']
        exact .value le_rfl (h.withOut (h.out.wrote _)) rfl
      | off =>
        -- only the first prints the line, so the texts are not asked to be the same
        simp only [Machine.echo, hprints h.out.takes]
        refine .value le_rfl ⟨h.memory, h.inv, h.out.takes.wrote _, h.out.takes', ?_⟩ rfl
        exact fun hsame => by cases hecho hsame
    | off =>
      cases echo' with
      | on =>
        simp only [Machine.echo, hprints h.out.takes']
        refine .value le_rfl ⟨h.memory, h.inv, h.out.takes, h.out.takes'.wrote _, ?_⟩ rfl
        exact fun hsame => by cases hecho hsame
      | off => exact .value le_rfl h rfl

end Machine

/-- Calls that are not traced, unless there is a trace count. -/
theorem Trace.tracks_around {μ α : Type} {P I : μ → Prop} {same : Prop}
    {count : Machine μ → Option Number} {spend : Number → Machine μ → Machine μ}
    (hspend : ∀ n m, P m.memory → P (spend n m).memory)
    (hcount : ∀ {m m'}, m.Presents I same m' → P m.memory ∨ (count m = none ∧ count m' = none))
    {call : Unit → String} {render : α → String} {run : Machine μ → Outcome (Machine μ) α}
    (hrun : Machine.Tracks P I same run run) :
    Machine.Tracks P I same (fun m => around (count m) spend call render run m)
      fun m => around (count m) spend call render run m := by
  have hkeeps : Keeps (fun m => P m.memory) fun m => around (count m) spend call render run m :=
    fun m hm => keeps_around hspend hrun.keeps m hm
  refine ⟨hkeeps, fun {m m'} h => ?_⟩
  rcases hcount h with hP | ⟨hnone, hnone'⟩
  · exact .inl (hkeeps m hP)
  · -- without a count neither call is traced, whatever the diagnostics would take
    rw [hnone, hnone']
    exact hrun.agree h

end Primer
