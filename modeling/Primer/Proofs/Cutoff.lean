/-
Primer/Proofs/Cutoff.lean

Computations that are cut off.

Both languages bound an evaluation twice, by its depth and by the turns of its
loops.  With tighter bounds an evaluation goes the same way for a while and
then may be cut off: in the error of the depth limit, or unfinished.  `Cut E m
o o'` says that `o` and `o'` are two ends of a computation begun at `m`, where
`o'` had the wider bounds: they are equal, or `o` is an end in an error of `E`,
or unfinished, and by then had written no more than `o'` has.

To carry this through a sequence of steps one has to know that the steps after
a cut only add to what is written.  This is why `Cut` keeps track of the state
that the computation began with.
-/
import Mathlib.Order.Basic
import Primer.Arithmetic
import Primer.Trace

namespace Primer

/-! ### What was written before stays written -/

/-- The channel `c'` is `c` with some text added, some attempts to write later. -/
def Channel.Precedes (c c' : Channel) : Prop :=
  ∃ more attempts, c' = { c with
    text := c.text ++ more
    writing := { c.writing with attempts := c.writing.attempts + attempts } }

namespace Channel.Precedes

theorem refl (c : Channel) : c.Precedes c := ⟨"", 0, by simp⟩

theorem trans {a b c : Channel} (hab : a.Precedes b) (hbc : b.Precedes c) : a.Precedes c := by
  obtain ⟨s, m, rfl⟩ := hab
  obtain ⟨t, n, rfl⟩ := hbc
  exact ⟨s ++ t, m + n, by simp [String.append_assoc, Nat.add_assoc]⟩

theorem wrote (c : Channel) (s : String) : c.Precedes (c.wrote s) := ⟨s, 1, rfl⟩

theorem writeText (c : Channel) (text : Unit → String) : c.Precedes (c.writeText text).state := by
  obtain ⟨s, hs⟩ := c.exists_state_writeText text
  rw [hs]
  exact wrote c s

theorem write (c : Channel) (s : String) : c.Precedes (c.write s).state := by
  unfold Channel.write
  split
  · exact refl c
  · exact writeText c _

theorem emitCharacter (c : Channel) (n : Number) :
    c.Precedes (Arithmetic.emitCharacter c n).state := by
  unfold Arithmetic.emitCharacter
  split
  · exact write c _
  · exact refl c

end Channel.Precedes

variable {μ α β ι : Type}

/-- Each channel of `m'` is that of `m` with some text added. -/
def Machine.Precedes (m m' : Machine μ) : Prop :=
  m.console.out.Precedes m'.console.out ∧ m.console.diag.Precedes m'.console.diag

namespace Machine.Precedes

theorem refl (m : Machine μ) : m.Precedes m := ⟨.refl _, .refl _⟩

theorem trans {a b c : Machine μ} (hab : a.Precedes b) (hbc : b.Precedes c) : a.Precedes c :=
  ⟨hab.1.trans hbc.1, hab.2.trans hbc.2⟩

/-- What does not touch the console writes nothing. -/
theorem of_console_eq {m m' : Machine μ} (h : m'.console = m.console) : m.Precedes m' := by
  unfold Machine.Precedes
  rw [h]
  exact ⟨.refl _, .refl _⟩

theorem withOut {m : Machine μ} {out : Channel} (h : m.console.out.Precedes out) :
    m.Precedes (m.withOut out) := ⟨h, .refl _⟩

theorem diagLine (m : Machine μ) (line : Unit → String) :
    m.Precedes (m.diagLine line).state := by
  rw [Machine.diagLine, Outcome.state_mapState]
  exact ⟨.refl _, .writeText _ _⟩

end Machine.Precedes

/-! ### Cut off computations -/

namespace Outcome

/-- The end `o` of a computation begun at `m` is the end `o'`, or the computation
was cut off before. -/
inductive Cut (E : Error → Prop) (m : Machine μ) :
    Outcome (Machine μ) α → Outcome (Machine μ) α → Prop
  | same {o : Outcome (Machine μ) α} : m.Precedes o.state → Cut E m o o
  | fault {e : Error} {s : Machine μ} {o' : Outcome (Machine μ) α} :
      E e → m.Precedes s → s.Precedes o'.state → Cut E m (.fault e s) o'
  | unfinished {s : Machine μ} {o' : Outcome (Machine μ) α} :
      m.Precedes s → s.Precedes o'.state → Cut E m (.unfinished s) o'

/-- Later steps that only add to what is written only add to it in sequence. -/
theorem precedes_andThen {m : Machine μ} {o : Outcome (Machine μ) α}
    {f : α → Machine μ → Outcome (Machine μ) β} (ho : m.Precedes o.state)
    (hf : ∀ a (s : Machine μ), s.Precedes (f a s).state) : m.Precedes (o.andThen f).state := by
  cases o with
  | value a s => exact ho.trans (hf a s)
  | fault e s => exact ho
  | unfinished s => exact ho

namespace Cut

variable {E : Error → Prop} {m : Machine μ}

/-- The end with the wider bounds has only added to what was written. -/
theorem precedes {o o' : Outcome (Machine μ) α} (h : Cut E m o o') : m.Precedes o'.state := by
  cases h with
  | same h => exact h
  | fault _ h h' => exact h.trans h'
  | unfinished h h' => exact h.trans h'

theorem of_precedes {m₀ : Machine μ} {o o' : Outcome (Machine μ) α} (hm : m₀.Precedes m)
    (h : Cut E m o o') : Cut E m₀ o o' := by
  cases h with
  | same h => exact .same (hm.trans h)
  | fault he h h' => exact .fault he (hm.trans h) h'
  | unfinished h h' => exact .unfinished (hm.trans h) h'

theorem andThen {o o' : Outcome (Machine μ) α} {f g : α → Machine μ → Outcome (Machine μ) β}
    (h : Cut E m o o') (hfg : ∀ a s, Cut E s (f a s) (g a s)) :
    Cut E m (o.andThen f) (o'.andThen g) := by
  have hg : ∀ a (s : Machine μ), s.Precedes (g a s).state := fun a s => (hfg a s).precedes
  cases h with
  | same h =>
    cases o with
    | value a s => exact (hfg a s).of_precedes h
    | fault e s => exact .same h
    | unfinished s => exact .same h
  | fault he h h' => exact .fault he h (precedes_andThen h' hg)
  | unfinished h h' => exact .unfinished h (precedes_andThen h' hg)

theorem evalEach {f g : ι → Machine μ → Outcome (Machine μ) α}
    (hfg : ∀ a s, Cut E s (f a s) (g a s)) (as : List ι) :
    Cut E m (Primer.evalEach f as m) (Primer.evalEach g as m) := by
  induction as generalizing m with
  | nil => exact .same (.refl m)
  | cons a as ih =>
    refine (hfg a m).andThen fun b s => ?_
    exact (ih (m := s)).andThen fun bs s => .same (.refl s)

theorem evalLast {f g : ι → Machine μ → Outcome (Machine μ) α}
    (hfg : ∀ a s, Cut E s (f a s) (g a s)) (last : α) (as : List ι) :
    Cut E m (Primer.evalLast f last as m) (Primer.evalLast g last as m) := by
  induction as generalizing m last with
  | nil => exact .same (.refl m)
  | cons a as ih => exact (hfg a m).andThen fun b s => ih b

/-- A loop only adds to what is written if its test and its body do. -/
theorem precedes_evalWhile {isTrue : α → Bool} {done : α}
    {test body : Machine μ → Outcome (Machine μ) α}
    (htest : ∀ s : Machine μ, s.Precedes (test s).state)
    (hbody : ∀ s : Machine μ, s.Precedes (body s).state) (turns : Nat) (m : Machine μ) :
    m.Precedes (Primer.evalWhile isTrue done test body turns m).state := by
  induction turns generalizing m with
  | zero => exact .refl m
  | succ turns ih =>
    refine precedes_andThen (htest m) fun a s => ?_
    split
    · exact precedes_andThen (hbody s) fun _ s => ih s
    · exact .refl s

/-- A loop with fewer turns, whose test and body may be cut off too. -/
theorem evalWhile {isTrue : α → Bool} {done : α}
    {test body test' body' : Machine μ → Outcome (Machine μ) α}
    (htest : ∀ s, Cut E s (test s) (test' s)) (hbody : ∀ s, Cut E s (body s) (body' s))
    {turns turns' : Nat} (hturns : turns ≤ turns') :
    Cut E m (Primer.evalWhile isTrue done test body turns m)
      (Primer.evalWhile isTrue done test' body' turns' m) := by
  induction turns generalizing turns' m with
  | zero =>
    exact .unfinished (.refl m) (precedes_evalWhile (fun s => (htest s).precedes)
      (fun s => (hbody s).precedes) turns' m)
  | succ turns ih =>
    obtain ⟨turns', rfl⟩ : ∃ k, turns' = k + 1 := ⟨turns' - 1, by omega⟩
    refine (htest m).andThen fun a s => ?_
    split
    · exact (hbody s).andThen fun _ s => ih (by omega)
    · exact .same (.refl s)

/-- Changing the state at the end without touching the console. -/
theorem mapState {f : Machine μ → Machine μ} (hf : ∀ s, (f s).console = s.console)
    {o o' : Outcome (Machine μ) α} (h : Cut E m o o') :
    Cut E m (o.mapState f) (o'.mapState f) := by
  have hf' : ∀ s : Machine μ, s.Precedes (f s) := fun s => .of_console_eq (hf s)
  have hf'' : ∀ s : Machine μ, (f s).Precedes s := fun s => .of_console_eq (hf s).symm
  cases h with
  | same h => exact .same (by simpa using h.trans (hf' _))
  | @fault e s o' he h h' =>
    exact .fault he (h.trans (hf' s)) (by simpa using (hf'' s).trans (h'.trans (hf' _)))
  | @unfinished s o' h h' =>
    exact .unfinished (h.trans (hf' s)) (by simpa using (hf'' s).trans (h'.trans (hf' _)))

end Cut

end Outcome

/-! ### Calls under the trace -/

namespace Trace

variable {E : Error → Prop} {m : Machine μ}

/-- Leaving a call that ended only adds to what is written. -/
theorem precedes_leaveCall (call : String) (render : α → String) (o : Outcome (Machine μ) α) :
    o.state.Precedes (leaveCall call render o).state := by
  cases o with
  | value a s =>
    rw [leaveCall, Outcome.state_map]
    exact .diagLine { s with indent := outdent s.indent } _
  | fault e s => exact .of_console_eq rfl
  | unfinished s => exact .refl s

theorem precedes_noteLast (indent : Nat) (left : Number) (m : Machine μ) :
    m.Precedes (noteLast indent left m).state := by
  unfold noteLast
  split
  · exact .diagLine m _
  · exact .refl m

/-- Entering a call only adds to what is written. -/
theorem precedes_enter {spend : Number → Machine μ → Machine μ}
    (hspend : ∀ n s, (spend n s).console = s.console) (count : Option Number)
    (call : Unit → String) (m : Machine μ) :
    m.Precedes (enter count spend call m).state := by
  unfold enter
  split
  · exact .refl m
  · next n =>
    split
    · next hn =>
      refine Outcome.precedes_andThen (.diagLine m _) fun _ s => ?_
      have hspent : s.Precedes (spend (n.pred hn) s) := .of_console_eq (hspend _ s)
      exact Outcome.precedes_andThen (hspent.trans (precedes_noteLast _ _ _)) fun _ t =>
        .of_console_eq rfl
    · exact .refl m

theorem cut_leaveCall {o o' : Outcome (Machine μ) α} (call : String) (render : α → String)
    (h : Outcome.Cut E m o o') :
    Outcome.Cut E m (leaveCall call render o) (leaveCall call render o') := by
  have hleave : o'.state.Precedes (leaveCall call render o').state :=
    precedes_leaveCall call render o'
  cases h with
  | same h => exact .same (h.trans hleave)
  | fault he h h' =>
    exact .fault he (h.trans (.of_console_eq rfl))
      ((Machine.Precedes.of_console_eq rfl).trans (h'.trans hleave))
  | unfinished h h' => exact .unfinished h (h'.trans hleave)

/-- A call whose run may be cut off.  Entering it writes the same on both sides. -/
theorem cut_around {count : Option Number} {spend : Number → Machine μ → Machine μ}
    {call : Unit → String} {render : α → String} {run run' : Machine μ → Outcome (Machine μ) α}
    (hspend : ∀ n s, (spend n s).console = s.console)
    (hrun : ∀ s, Outcome.Cut E s (run s) (run' s)) :
    Outcome.Cut E m (around count spend call render run m)
      (around count spend call render run' m) := by
  refine .andThen (.same (precedes_enter hspend count call m)) fun traced s => ?_
  split
  · exact cut_leaveCall _ _ (hrun s)
  · exact hrun s

end Trace

end Primer
