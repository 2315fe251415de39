/-
Primer/Proofs/Untraced.lean

A machine without its trace.

`Machine.untraced` takes from a machine what only the trace is about: the trace
count, the text on the diagnostic channel and the indentation.  A machine and
what is left of it are related by `Hides`.  A call under the trace, made by the
one, and the same call without any trace, made by the other, lead to machines
that are related again (`Trace.match_around`), provided that the diagnostic
channel can be written to.

What is to be taken from the memory depends on the language and is a parameter
here.
-/
import Primer.Bindings
import Primer.Proofs.Cutoff
import Primer.Proofs.Indent
import Primer.Proofs.Lockstep

namespace Primer

/-! ### Bindings without a name -/

namespace Bindings

variable {α : Type} {x y : String}

/-- All bindings but those of a name. -/
def without (x : String) (bs : Bindings α) : Bindings α := bs.filter fun b => b.1 ≠ x

theorem get?_without_self (x : String) (bs : Bindings α) : (bs.without x).get? x = none := by
  induction bs with
  | nil => rfl
  | cons b bs ih =>
    by_cases hb : b.1 = x
    · simpa [without, hb] using ih
    · simpa [without, hb, get?] using ih

theorem get?_without_ne (h : y ≠ x) (bs : Bindings α) :
    (bs.without x).get? y = bs.get? y := by
  induction bs with
  | nil => rfl
  | cons b bs ih =>
    obtain ⟨z, a⟩ := b
    by_cases hz : z = x
    · have hzy : z ≠ y := fun hzy => h (hzy.symm.trans hz)
      simpa [without, hz, get?, hzy, h.symm] using ih
    · simp only [without, ne_eq, hz, not_false_eq_true, decide_true, List.filter_cons_of_pos, get?]
      split
      · rfl
      · exact ih

theorem has_without_ne (h : y ≠ x) (bs : Bindings α) : (bs.without x).has y = bs.has y := by
  rw [has_eq_isSome, has_eq_isSome, get?_without_ne h]

theorem without_set_self (x : String) (a : α) (bs : Bindings α) :
    (bs.set x a).without x = bs.without x := by
  induction bs with
  | nil => simp [set, without]
  | cons b bs ih =>
    by_cases hb : b.1 = x
    · simp [set, without, hb]
    · simpa [set, without, hb] using ih

theorem without_set_ne (h : y ≠ x) (a : α) (bs : Bindings α) :
    (bs.set y a).without x = (bs.without x).set y a := by
  induction bs with
  | nil => simp [set, without, h]
  | cons b bs ih =>
    obtain ⟨z, c⟩ := b
    by_cases hz : z = x
    · have hzy : z ≠ y := fun hzy => h (hzy.symm.trans hz)
      simpa [set, without, hz, hzy, h.symm] using ih
    · by_cases hzy : z = y
      · simp [set, without, hzy, h]
      · simpa [set, without, hz, hzy] using ih

theorem without_eq_self {bs : Bindings α} (h : bs.has x = false) : bs.without x = bs := by
  refine List.filter_eq_self.2 fun b hb => ?_
  simpa using fun hx => by simpa [has, hx] using List.any_eq_false.1 h b hb

end Bindings

/-! ### Machines without their trace -/

variable {μ α : Type}

/-- A channel before anything was written to it. -/
def Channel.unwritten (c : Channel) : Channel :=
  { c with text := "", writing := { c.writing with attempts := 0 } }

/-- A machine as a program sees it that knows nothing of the trace; `erase` takes
the trace count from the memory. -/
def Machine.untraced (erase : μ → μ) (m : Machine μ) : Machine μ :=
  ⟨erase m.memory, { m.console with diag := m.console.diag.unwritten }, 0⟩

/-- The machine `m'` is `m` without its trace, which can be written, and its memory
is good. -/
structure Machine.Hides (erase : μ → μ) (good : μ → Prop) (m m' : Machine μ) : Prop where
  eq : m' = m.untraced erase
  writable : m.console.diag.Open
  good : good m'.memory

namespace Trace

open Outcome

variable {erase : μ → μ} {good : μ → Prop} {V : OneWorld → α → α → Prop}
variable {m m' : Machine μ}

/-- The indentation is hidden. -/
theorem hides_withIndent (hm : m.Hides erase good m') (indent : Nat) :
    Machine.Hides erase good { m with indent := indent } m' :=
  ⟨hm.eq, hm.writable, hm.good⟩

/-- A line of the trace can be written, and is hidden. -/
theorem hides_diagLine (hm : m.Hides erase good m') (line : Unit → String) :
    ∃ s, m.diagLine line = .value () s ∧ s.Hides erase good m' := by
  rw [Machine.diagLine, Channel.writeLine, Channel.Open.writeText hm.writable]
  exact ⟨_, rfl, hm.eq, hm.writable.wrote _, hm.good⟩

theorem match_leaveCall {o o' : Outcome (Machine μ) α} (call : String) (render : α → String)
    (h : Match (fun _ => Machine.Hides erase good) V .only o o') :
    Match (fun _ => Machine.Hides erase good) V .only (leaveCall call render o) o' := by
  cases h with
  | @value w a b s t hw hs hv =>
    obtain ⟨s', hline, hs'⟩ := hides_diagLine (hides_withIndent hs (outdent s.indent)) fun _ =>
      closingLine (outdent s.indent) call (render a)
    simp only [leaveCall, hline]
    exact .value hw hs' hv
  | fault hw hs => exact .fault hw (hides_withIndent hs _)
  | unfinished hw hs => exact .unfinished hw hs

/-- Every call can be entered, and all that the trace does then is hidden. -/
theorem hides_enter (count : Option Number) {spend : Number → Machine μ → Machine μ}
    (hspend : ∀ n m, (spend n m).console = m.console ∧ erase (spend n m).memory = erase m.memory)
    (call : Unit → String) (hm : m.Hides erase good m') :
    ∃ traced s, enter count spend call m = .value traced s ∧ s.Hides erase good m' := by
  cases count with
  | none => exact ⟨false, m, rfl, hm⟩
  | some n =>
    by_cases hn : 0 < n.val
    · obtain ⟨s, hopening, hs⟩ := hides_diagLine hm fun _ => openingLine m.indent (call ())
      have hspent : (spend (n.pred hn) s).Hides erase good m' := by
        obtain ⟨hconsole, hmemory⟩ := hspend (n.pred hn) s
        refine ⟨?_, hconsole ▸ hs.writable, hm.good⟩
        rw [hs.eq, Machine.untraced, Machine.untraced, hconsole, hmemory]
      simp only [enter, hn, dite_true, hopening, andThen_value, noteLast]
      split
      · obtain ⟨t, hnotice, ht⟩ := hides_diagLine hspent fun _ => lastLine m.indent
        rw [hnotice]
        exact ⟨true, _, rfl, hides_withIndent ht _⟩
      · exact ⟨true, _, rfl, hides_withIndent hspent _⟩
    · exact ⟨false, m, by simp [enter, hn], hm⟩

/-- A call under the trace does what it does without. -/
theorem match_around {count : Option Number} {spend : Number → Machine μ → Machine μ}
    (hspend : ∀ n m, (spend n m).console = m.console ∧ erase (spend n m).memory = erase m.memory)
    {call : Unit → String} {render : α → String} {run run' : Machine μ → Outcome (Machine μ) α}
    (hm : m.Hides erase good m')
    (hrun : ∀ s s', Machine.Hides erase good s s' →
      Match (fun _ => Machine.Hides erase good) V .only (run s) (run' s')) :
    Match (fun _ => Machine.Hides erase good) V .only (around count spend call render run m)
      (run' m') := by
  obtain ⟨traced, s, henter, hs⟩ := hides_enter count hspend call hm
  rw [around, henter, andThen_value]
  split
  · exact match_leaveCall _ _ (hrun s m' hs)
  · exact hrun s m' hs

end Trace

/-- Computations that are the same without their trace agree but for the trace. -/
theorem agree_of_hides {erase : μ → μ} {good : μ → Prop} {V : OneWorld → α → α → Prop}
    (hV : ∀ w a b, V w a b → a = b) {o₁ o₂ o : Outcome (Machine μ) α} {n : Nat}
    (h₁ : Outcome.Match (fun _ => Machine.Hides erase good) V .only o₁ o)
    (h₂ : Outcome.Match (fun _ => Machine.Hides erase good) V .only o₂ o)
    (hn₁ : Outcome.Level n o₁) (hn₂ : Outcome.Level n o₂) (hfin : o₁.finished = true) :
    Outcome.Agree (fun m m' => m.untraced erase = m'.untraced erase ∧ m.indent = m'.indent)
      Eq o₁ o₂ := by
  -- `o` came to one kind of end, so `o₁` and `o₂` came to the same
  cases h₁ with
  | @value _ a₁ a s₁ s _ hs₁ hv₁ =>
    cases h₂ with
    | @value _ a₂ _ s₂ _ _ hs₂ hv₂ =>
      refine .value le_rfl ⟨hs₁.eq.symm.trans hs₂.eq, Eq.trans hn₁ hn₂.symm⟩ ?_
      rw [hV _ _ _ hv₁, hV _ _ _ hv₂]
  | fault _ hs₁ =>
    cases h₂ with
    | fault _ hs₂ => exact .fault le_rfl ⟨hs₁.eq.symm.trans hs₂.eq, Eq.trans hn₁ hn₂.symm⟩
  | unfinished _ _ => cases hfin

end Primer
