/-
Primer/Proofs/Lockstep.lean

Two computations side by side.

`Outcome.Match S V w` says that two computations came to the same kind of end:
both have a value, both have the same error, or both are unfinished; that their
states are related by `S`; and that their values are related by `V`.

What it takes for two values to be related may depend on what has been set up
so far, such as the frames that exist.  This is what the *worlds* `w` stand
for.  A world may grow as the computations go on, so `Match` asks for the
relations at some world above the one it started from, and relations on values
have to persist when the world grows.

A computation whose loops are bounded is a function of that bound.  It ends in
`o` if some bound is enough for it to come to the end `o` (`EndsIn`), and it
diverges if no bound is (`Diverges`).  Two computations that match at every
bound end together or diverge together (`endTogether_of_forall`).
-/
import Mathlib.Data.List.Forall2
import Mathlib.Order.Basic
import Primer.Arithmetic
import Primer.Proofs.Results
import Primer.Trace

namespace Primer

/-- The world of relations that stay as they are. -/
inductive OneWorld where
  | only

instance : Preorder OneWorld where
  le _ _ := True
  le_refl _ := trivial
  le_trans _ _ _ _ _ := trivial

/-- The world of relations that depend on something about each frame, which is known from
when the frame is made. -/
structure Ledger (α : Type) where
  entries : List α

namespace Ledger

variable {α : Type} {l l' : Ledger α}

instance : Preorder (Ledger α) where
  le l l' := l.entries <+: l'.entries
  le_refl l := List.prefix_refl l.entries
  le_trans _ _ _ := List.IsPrefix.trans

/-- What is known is known from then on. -/
theorem getElem?_of_le (h : l ≤ l') {i : Nat} {a : α} (ha : l.entries[i]? = some a) :
    l'.entries[i]? = some a := by
  obtain ⟨rest, hrest⟩ := h
  rw [← hrest, List.getElem?_append_left (List.getElem?_eq_some_iff.1 ha).1]
  exact ha

/-- One more entry. -/
def push (l : Ledger α) (a : α) : Ledger α := ⟨l.entries ++ [a]⟩

theorem le_push (l : Ledger α) (a : α) : l ≤ l.push a := ⟨[a], rfl⟩

@[simp] theorem length_push (l : Ledger α) (a : α) :
    (l.push a).entries.length = l.entries.length + 1 := by
  simp [push]

theorem getElem?_push_length (l : Ledger α) (a : α) :
    (l.push a).entries[l.entries.length]? = some a := by
  simp [push]

/-- An entry of the longer ledger is the new one or an old one. -/
theorem getElem?_push {i : Nat} {a b : α} (h : (l.push a).entries[i]? = some b) :
    (i = l.entries.length ∧ a = b) ∨ (i ≠ l.entries.length ∧ l.entries[i]? = some b) := by
  rw [push, List.getElem?_append] at h
  split at h
  · next hlt => exact .inr ⟨Nat.ne_of_lt hlt, h⟩
  · next hge =>
    have hi : i - l.entries.length = 0 := by
      have := (List.getElem?_eq_some_iff.1 h).1
      simpa using this
    have hle : l.entries.length ≤ i := Nat.le_of_not_lt hge
    refine .inl ⟨by omega, ?_⟩
    rw [hi] at h
    exact Option.some.inj h

end Ledger

namespace Outcome

variable {W σ τ α β γ δ ι : Type} [Preorder W]

/-- The same kind of end, with related states and related values. -/
inductive Match (S : W → σ → τ → Prop) (V : W → α → β → Prop) (w : W) :
    Outcome σ α → Outcome τ β → Prop
  | value {w' : W} {a : α} {b : β} {s : σ} {t : τ} :
      w ≤ w' → S w' s t → V w' a b → Match S V w (.value a s) (.value b t)
  | fault {w' : W} {e : Error} {s : σ} {t : τ} :
      w ≤ w' → S w' s t → Match S V w (.fault e s) (.fault e t)
  | unfinished {w' : W} {s : σ} {t : τ} :
      w ≤ w' → S w' s t → Match S V w (.unfinished s) (.unfinished t)

theorem mapState_map (o : Outcome σ α) (f : σ → τ) (g : α → β) :
    (o.map g).mapState f = (o.mapState f).map g := by
  cases o <;> rfl

namespace Match

variable {S : W → σ → τ → Prop} {V : W → α → β → Prop} {U : W → γ → δ → Prop} {w : W}

/-- A match above a world is a match above any world below. -/
theorem of_le {w₀ : W} {o : Outcome σ α} {o' : Outcome τ β} (hw : w₀ ≤ w)
    (h : Match S V w o o') : Match S V w₀ o o' := by
  cases h with
  | value hle hs hv => exact .value (hw.trans hle) hs hv
  | fault hle hs => exact .fault (hw.trans hle) hs
  | unfinished hle hs => exact .unfinished (hw.trans hle) hs

/-- Steps that match, taken one after the other, match. -/
theorem andThen {o : Outcome σ α} {o' : Outcome τ β} {f : α → σ → Outcome σ γ}
    {g : β → τ → Outcome τ δ} (h : Match S V w o o')
    (hfg : ∀ w', w ≤ w' → ∀ a b s t, S w' s t → V w' a b → Match S U w' (f a s) (g b t)) :
    Match S U w (o.andThen f) (o'.andThen g) := by
  cases h with
  | value hle hs hv => exact of_le hle (hfg _ hle _ _ _ _ hs hv)
  | fault hle hs => exact .fault hle hs
  | unfinished hle hs => exact .unfinished hle hs

/-- Doing matching things for each of a list. -/
theorem evalEach {f : ι → σ → Outcome σ α} {g : ι → τ → Outcome τ β}
    (hV : ∀ {w w' a b}, w ≤ w' → V w a b → V w' a b) {as : List ι} {s : σ} {t : τ}
    (hs : S w s t)
    (hfg : ∀ w', w ≤ w' → ∀ a ∈ as, ∀ s t, S w' s t → Match S V w' (f a s) (g a t)) :
    Match S (fun w bs bs' => bs.length = as.length ∧ List.Forall₂ (V w) bs bs') w
      (Primer.evalEach f as s) (Primer.evalEach g as t) := by
  induction as generalizing w s t with
  | nil => exact .value le_rfl hs ⟨rfl, .nil⟩
  | cons a as ih =>
    refine (hfg w le_rfl a (by simp) s t hs).andThen ?_
    intro w₁ hw₁ b b' s₁ t₁ hs₁ hb
    have htail := ih hs₁ fun w' hw' c hc => hfg w' (hw₁.trans hw') c (by simp [hc])
    refine htail.andThen ?_
    rintro w₂ hw₂ bs bs' s₂ t₂ hs₂ ⟨hlen, hbs⟩
    exact .value le_rfl hs₂ ⟨by simp [hlen], .cons (hV hw₂ hb) hbs⟩

/-- Doing matching things for each of a list and keeping the last value. -/
theorem evalLast {f : ι → σ → Outcome σ α} {g : ι → τ → Outcome τ β} {as : List ι} {s : σ}
    {t : τ} {b : α} {b' : β} (hs : S w s t) (hb : V w b b')
    (hfg : ∀ w', w ≤ w' → ∀ a ∈ as, ∀ s t, S w' s t → Match S V w' (f a s) (g a t)) :
    Match S V w (Primer.evalLast f b as s) (Primer.evalLast g b' as t) := by
  induction as generalizing w s t b b' with
  | nil => exact .value le_rfl hs hb
  | cons a as ih =>
    refine (hfg w le_rfl a (by simp) s t hs).andThen ?_
    intro w₁ hw₁ c c' s₁ t₁ hs₁ hc
    exact ih hs₁ hc fun w' hw' d hd => hfg w' (hw₁.trans hw') d (by simp [hd])

/-- Loops whose tests and bodies match, with the same bound. -/
theorem evalWhile {isTrue : α → Bool} {isTrue' : β → Bool} {done : α} {done' : β}
    {test body : σ → Outcome σ α} {test' body' : τ → Outcome τ β}
    (hdone : ∀ w, V w done done') (htrue : ∀ {w a b}, V w a b → isTrue a = isTrue' b)
    (turns : Nat) {s : σ} {t : τ} (hs : S w s t)
    (htest : ∀ w', w ≤ w' → ∀ s t, S w' s t → Match S V w' (test s) (test' t))
    (hbody : ∀ w', w ≤ w' → ∀ s t, S w' s t → Match S V w' (body s) (body' t)) :
    Match S V w (Primer.evalWhile isTrue done test body turns s)
      (Primer.evalWhile isTrue' done' test' body' turns t) := by
  induction turns generalizing w s t with
  | zero => exact .unfinished le_rfl hs
  | succ turns ih =>
    refine (htest w le_rfl s t hs).andThen ?_
    intro w₁ hw₁ a b s₁ t₁ hs₁ hab
    rw [← htrue hab]
    split
    · refine (hbody w₁ hw₁ s₁ t₁ hs₁).andThen ?_
      intro w₂ hw₂ _ _ s₂ t₂ hs₂ _
      have hw : w ≤ w₂ := hw₁.trans hw₂
      exact ih hs₂ (fun w' hw' => htest w' (hw.trans hw')) fun w' hw' => hbody w' (hw.trans hw')
    · exact .value le_rfl hs₁ (hdone w₁)

/-- Relations that hold at every world need none. -/
theorem forget {S' : σ → τ → Prop} {V' : α → β → Prop} {o : Outcome σ α} {o' : Outcome τ β}
    (h : Match S V w o o') (hS : ∀ w s t, S w s t → S' s t) (hV : ∀ w a b, V w a b → V' a b) :
    Match (fun _ : OneWorld => S') (fun _ => V') .only o o' := by
  cases h with
  | value _ hs hv => exact .value le_rfl (hS _ _ _ hs) (hV _ _ _ hv)
  | fault _ hs => exact .fault le_rfl (hS _ _ _ hs)
  | unfinished _ hs => exact .unfinished le_rfl (hS _ _ _ hs)

/-- The states are related, at some later world. -/
theorem state {o : Outcome σ α} {o' : Outcome τ β} (h : Match S V w o o') :
    ∃ w', w ≤ w' ∧ S w' o.state o'.state := by
  cases h with
  | value hw hs _ => exact ⟨_, hw, hs⟩
  | fault hw hs => exact ⟨_, hw, hs⟩
  | unfinished hw hs => exact ⟨_, hw, hs⟩

theorem mapState {σ' τ' : Type} {S' : W → σ' → τ' → Prop} {f : σ → σ'} {g : τ → τ'}
    (hS : ∀ w s t, S w s t → S' w (f s) (g t)) {o : Outcome σ α} {o' : Outcome τ β}
    (h : Match S V w o o') : Match S' V w (o.mapState f) (o'.mapState g) := by
  cases h with
  | value hw hs hv => exact .value hw (hS _ _ _ hs) hv
  | fault hw hs => exact .fault hw (hS _ _ _ hs)
  | unfinished hw hs => exact .unfinished hw (hS _ _ _ hs)

theorem map {f : α → γ} {g : β → δ} {o : Outcome σ α} {o' : Outcome τ β} (h : Match S V w o o')
    (hV : ∀ w', w ≤ w' → ∀ a b, V w' a b → U w' (f a) (g b)) :
    Match S U w (o.map f) (o'.map g) := by
  cases h with
  | value hw hs hv => exact .value hw hs (hV _ hw _ _ hv)
  | fault hw hs => exact .fault hw hs
  | unfinished hw hs => exact .unfinished hw hs

theorem mapError {f : Error → Error} {o : Outcome σ α} {o' : Outcome τ β} (h : Match S V w o o') :
    Match S V w (o.mapError f) (o'.mapError f) := by
  cases h with
  | value hw hs hv => exact .value hw hs hv
  | fault hw hs => exact .fault hw hs
  | unfinished hw hs => exact .unfinished hw hs

/-- The same result, reached without a change of the states. -/
theorem ofExcept {x : Except Error α} {y : Except Error β} {s : σ} {t : τ}
    (h : SameResult (V w) x y) (hs : S w s t) :
    Match S V w (.ofExcept x s) (.ofExcept y t) := by
  obtain ⟨a, b, rfl, rfl, hab⟩ | ⟨e, rfl, rfl⟩ := h.ok_or_error
  · exact .value le_rfl hs hab
  · exact .fault le_rfl hs

end Match

/-- Whether a computation came to an end within its bound. -/
def finished : Outcome σ α → Bool
  | value .. => true
  | fault .. => true
  | unfinished _ => false

/-- The same kind of end, with related states and values, where no worlds are needed. -/
abbrev Agree (S : σ → τ → Prop) (V : α → β → Prop) : Outcome σ α → Outcome τ β → Prop :=
  Match (fun _ : OneWorld => S) (fun _ => V) .only

/-- A computation agrees with itself. -/
theorem Agree.refl (o : Outcome σ α) : Agree Eq Eq o o := by
  cases o with
  | value a s => exact .value le_rfl rfl rfl
  | fault e s => exact .fault le_rfl rfl
  | unfinished s => exact .unfinished le_rfl rfl

theorem Match.finished_eq {S : W → σ → τ → Prop} {V : W → α → β → Prop} {w : W}
    {o : Outcome σ α} {o' : Outcome τ β} (h : Match S V w o o') : o.finished = o'.finished := by
  cases h <;> rfl

@[simp] theorem finished_map (f : α → β) (o : Outcome σ α) :
    (o.map f).finished = o.finished := by
  cases o <;> rfl

@[simp] theorem finished_mapState (f : σ → τ) (o : Outcome σ α) :
    (o.mapState f).finished = o.finished := by
  cases o <;> rfl

@[simp] theorem finished_ofExcept (x : Except Error α) (s : σ) :
    (ofExcept x s).finished = true := by
  cases x <;> rfl

end Outcome

/-! ### Writing comes to an end -/

namespace Channel

@[simp] theorem finished_writeText (c : Channel) (text : Unit → String) :
    (c.writeText text).finished = true := by
  unfold writeText
  split <;> rfl

@[simp] theorem finished_write (c : Channel) (s : String) : (c.write s).finished = true := by
  unfold write
  split
  · rfl
  · exact finished_writeText c _

@[simp] theorem finished_emitCharacter (c : Channel) (n : Number) :
    (Arithmetic.emitCharacter c n).finished = true := by
  unfold Arithmetic.emitCharacter
  split
  · exact finished_write c _
  · rfl

end Channel

/-! ### Calls under the same trace -/

namespace Trace

open Outcome

variable {W μ ν α β : Type} [Preorder W]
variable {S : W → Machine μ → Machine ν → Prop} {V : W → α → β → Prop} {w : W}
variable {render : α → String} {render' : β → String}

/-- States that go together have the same console and the same indentation, and go
together after the same change to the diagnostic channel and the indentation. -/
structure SameOnBoth (S : W → Machine μ → Machine ν → Prop) : Prop where
  console : ∀ {w s s'}, S w s s' → s.console = s'.console
  indent : ∀ {w s s'}, S w s s' → s.indent = s'.indent
  withDiag : ∀ {w s s'}, S w s s' → ∀ diag indent,
    S w { s.withDiag diag with indent := indent } { s'.withDiag diag with indent := indent }

namespace SameOnBoth

variable {s : Machine μ} {s' : Machine ν}

omit [Preorder W] in
theorem withIndent (hS : SameOnBoth S) (hs : S w s s') (n : Nat) :
    S w { s with indent := n } { s' with indent := n } := by
  have h := hS.withDiag hs s.console.diag n
  rwa [show s'.withDiag s.console.diag = s' by rw [hS.console hs]; rfl] at h

omit [Preorder W] in
/-- A line of the trace is written on both sides, or fails on both. -/
theorem diagLine (hS : SameOnBoth S) (hs : S w s s') (line : Unit → String) :
    ∃ d, S w (s.withDiag d) (s'.withDiag d) ∧
      ((s.diagLine line = .value () (s.withDiag d) ∧
          s'.diagLine line = .value () (s'.withDiag d)) ∨
        ∃ e, s.diagLine line = .fault e (s.withDiag d) ∧
          s'.diagLine line = .fault e (s'.withDiag d)) := by
  have hdiag : ∀ d, S w (s.withDiag d) (s'.withDiag d) := by
    intro d
    have h := hS.withDiag hs d s.indent
    nth_rewrite 2 [hS.indent hs] at h
    exact h
  unfold Machine.diagLine Channel.writeLine Channel.writeText
  rw [← hS.console hs]
  split
  · exact ⟨_, hdiag _, .inl ⟨rfl, rfl⟩⟩
  · exact ⟨_, hdiag _, .inr ⟨_, rfl, rfl⟩⟩

end SameOnBoth

theorem match_leaveCall_same (hS : SameOnBoth S)
    (hrender : ∀ w a b, V w a b → render a = render' b) (call : String)
    {o : Outcome (Machine μ) α} {o' : Outcome (Machine ν) β} (h : Match S V w o o') :
    Match S V w (leaveCall call render o) (leaveCall call render' o') := by
  cases h with
  | @value w' a b s t hw hs hv =>
    have hleft := hS.withIndent hs (outdent s.indent)
    simp only [leaveCall]
    rw [← hrender _ _ _ hv, ← hS.indent hs]
    obtain ⟨d, hd, ⟨h, h'⟩ | ⟨e, h, h'⟩⟩ := hS.diagLine hleft fun _ =>
      closingLine (outdent s.indent) call (render a)
    · rw [h, h']
      exact .value hw hd hv
    · rw [h, h']
      exact .fault hw hd
  | @fault w' e s t hw hs =>
    have hleft := hS.withIndent hs (outdent s.indent)
    simp only [leaveCall]
    rw [← hS.indent hs]
    exact .fault hw hleft
  | unfinished hw hs => exact .unfinished hw hs

omit [Preorder W] in
/-- Where the trace is the same on both sides, calls are entered on both, or on neither. -/
theorem enter_same (hS : SameOnBoth S) {m : Machine μ} {m' : Machine ν}
    (count : Option Number) {spend : Number → Machine μ → Machine μ}
    {spend' : Number → Machine ν → Machine ν} (call : Unit → String) (hm : S w m m')
    (hspend : ∀ n s s', S w s s' → S w (spend n s) (spend' n s')) :
    ∃ s s', S w s s' ∧
      ((∃ traced, enter count spend call m = .value traced s ∧
          enter count spend' call m' = .value traced s') ∨
        ∃ e, enter count spend call m = .fault e s ∧
          enter count spend' call m' = .fault e s') := by
  unfold enter
  split
  · exact ⟨m, m', hm, .inl ⟨false, rfl, rfl⟩⟩
  · next n =>
    split
    · next hn =>
      rw [← hS.indent hm]
      obtain ⟨d, hd, ⟨h, h'⟩ | ⟨e, h, h'⟩⟩ := hS.diagLine hm fun _ =>
        openingLine m.indent (call ())
      · have hspent := hspend (n.pred hn) _ _ hd
        simp only [h, h', andThen_value, noteLast]
        split
        · obtain ⟨d', hd', ⟨h, h'⟩ | ⟨e, h, h'⟩⟩ := hS.diagLine hspent fun _ =>
            lastLine m.indent
          · rw [h, h']
            exact ⟨_, _, hS.withIndent hd' _, .inl ⟨true, rfl, rfl⟩⟩
          · rw [h, h']
            exact ⟨_, _, hd', .inr ⟨e, rfl, rfl⟩⟩
        · exact ⟨_, _, hS.withIndent hspent _, .inl ⟨true, rfl, rfl⟩⟩
      · simp only [h, h', andThen_fault]
        exact ⟨_, _, hd, .inr ⟨e, rfl, rfl⟩⟩
    · exact ⟨m, m', hm, .inl ⟨false, rfl, rfl⟩⟩

/-- Where the trace is the same on both sides, calls are entered and left together. -/
theorem match_around_same (hS : SameOnBoth S)
    (hrender : ∀ w a b, V w a b → render a = render' b)
    {m : Machine μ} {m' : Machine ν} {count : Option Number}
    {spend : Number → Machine μ → Machine μ} {spend' : Number → Machine ν → Machine ν}
    {call : Unit → String} {run : Machine μ → Outcome (Machine μ) α}
    {run' : Machine ν → Outcome (Machine ν) β} (hm : S w m m')
    (hspend : ∀ n s s', S w s s' → S w (spend n s) (spend' n s'))
    (hrun : ∀ s s', S w s s' → Match S V w (run s) (run' s')) :
    Match S V w (around count spend call render run m)
      (around count spend' call render' run' m') := by
  unfold around
  obtain ⟨s, s', hs, ⟨traced, h, h'⟩ | ⟨e, h, h'⟩⟩ := enter_same hS count call hm hspend
  · rw [h, h', andThen_value, andThen_value]
    split
    · exact match_leaveCall_same hS hrender _ (hrun s s' hs)
    · exact hrun s s' hs
  · rw [h, h']
    exact .fault le_rfl hs

end Trace

/-! ### Computations of any length -/

variable {σ τ α β : Type}

/-- Some bound on the turns of its loops lets a computation end in `o`. -/
def EndsIn (run : Nat → Outcome σ α) (o : Outcome σ α) : Prop :=
  o.finished = true ∧ ∃ turns, run turns = o

/-- No bound on the turns of its loops lets a computation end. -/
def Diverges (run : Nat → Outcome σ α) : Prop := ∀ turns, (run turns).finished = false

/-- Two computations both diverge, or both end, in ends related by `R`. -/
def EndTogether (R : Outcome σ α → Outcome τ β → Prop) (run : Nat → Outcome σ α)
    (run' : Nat → Outcome τ β) : Prop :=
  (Diverges run ∧ Diverges run') ∨ ∃ o o', EndsIn run o ∧ EndsIn run' o' ∧ R o o'

/-- It is enough to compare the computations at each bound. -/
theorem endTogether_of_forall {R : Outcome σ α → Outcome τ β → Prop} {run : Nat → Outcome σ α}
    {run' : Nat → Outcome τ β}
    (hfin : ∀ turns, (run turns).finished = (run' turns).finished)
    (hR : ∀ turns, (run turns).finished = true → R (run turns) (run' turns)) :
    EndTogether R run run' := by
  by_cases h : ∃ turns, (run turns).finished = true
  · obtain ⟨turns, ht⟩ := h
    have ht' : (run' turns).finished = true := by rw [← hfin, ht]
    exact .inr ⟨run turns, run' turns, ⟨ht, turns, rfl⟩, ⟨ht', turns, rfl⟩, hR turns ht⟩
  · have hrun : Diverges run := fun turns => by
      simpa using fun ht => h ⟨turns, ht⟩
    exact .inl ⟨hrun, fun turns => by rw [← hfin, hrun]⟩

end Primer
