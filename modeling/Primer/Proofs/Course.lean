/-
Primer/Proofs/Course.lean

The course of a computation that is made of others.

An error ends everything at once.  If things are done for each of a list, or in a
loop, or under the trace, and it all ends in an error, then the error is that of one
of the computations inside, and those before it had values.  The lemmas here say which
one it was and in which state it began; `Turns` says in which states a loop begins
its turns, and `Trace.Enters` in which state a call begins under the trace.
-/
import Primer.Arithmetic
import Primer.Trace

namespace Primer

open Outcome

/-- The call that an error has a place for, if it has one: a call or none. -/
def Error.call? : Error → Option (Option String)
  | arity _ _ call => some call
  | divisionByZero call => some call
  | overflow call => some call
  | _ => none

variable {σ α β ι : Type}

namespace Outcome

theorem andThen_eq_fault_iff {o : Outcome σ α} {f : α → σ → Outcome σ β} {e : Error} {s : σ} :
    o.andThen f = fault e s ↔ o = fault e s ∨ ∃ a t, o = value a t ∧ f a t = fault e s := by
  cases o <;> simp [and_assoc]

theorem map_eq_value_iff {o : Outcome σ α} {f : α → β} {b : β} {s : σ} :
    o.map f = value b s ↔ ∃ a, o = value a s ∧ f a = b := by
  cases o with
  | value a t =>
    simp only [map, value.injEq]
    constructor
    · rintro ⟨hb, rfl⟩
      exact ⟨a, ⟨rfl, rfl⟩, hb⟩
    · rintro ⟨_, ⟨rfl, rfl⟩, hb⟩
      exact ⟨hb, rfl⟩
  | fault e t => simp [map]
  | unfinished t => simp [map]

theorem map_eq_fault_iff {o : Outcome σ α} {f : α → β} {e : Error} {s : σ} :
    o.map f = fault e s ↔ o = fault e s := by
  cases o <;> simp [map]

theorem mapError_eq_fault_iff {o : Outcome σ α} {f : Error → Error} {e : Error} {s : σ} :
    o.mapError f = fault e s ↔ ∃ e', o = fault e' s ∧ f e' = e := by
  cases o with
  | value a t => simp [mapError]
  | fault e' t =>
    simp only [mapError, fault.injEq]
    constructor
    · rintro ⟨he, rfl⟩
      exact ⟨e', ⟨rfl, rfl⟩, he⟩
    · rintro ⟨_, ⟨rfl, rfl⟩, he⟩
      exact ⟨he, rfl⟩
  | unfinished t => simp [mapError]

theorem mapState_eq_fault_iff {τ : Type} {o : Outcome σ α} {f : σ → τ} {e : Error} {t : τ} :
    o.mapState f = fault e t ↔ ∃ s, o = fault e s ∧ f s = t := by
  cases o <;> simp [mapState, and_assoc]

end Outcome

/-! ### Writing -/

/-- An error of a channel, or of something that leaves the channel alone. -/
def Error.OfChannel (e : Error) (c c' : Channel) : Prop := (∃ reason, e = .channel reason) ∨ c' = c

namespace Channel

variable {c c' : Channel} {e : Error}

theorem exists_reason_of_writeText {text : Unit → String} (h : c.writeText text = .fault e c') :
    ∃ reason, e = .channel reason := by
  unfold writeText at h
  split at h
  · cases h
  · cases h
    exact ⟨_, rfl⟩

theorem exists_reason_of_write {s : String} (h : c.write s = .fault e c') :
    ∃ reason, e = .channel reason := by
  unfold write at h
  split at h
  · cases h
  · exact exists_reason_of_writeText h

theorem ofChannel_of_emitCharacter {n : Number}
    (h : Arithmetic.emitCharacter c n = .fault e c') : e.OfChannel c c' := by
  unfold Arithmetic.emitCharacter at h
  split at h
  · exact .inl (exists_reason_of_write h)
  · cases h
    exact .inr rfl

end Channel

theorem Outcome.ofExcept_eq_value {x : Except Error α} {a : α} {s s' : σ}
    (h : ofExcept x s = value a s') : x = .ok a := by
  cases x <;> cases h
  rfl

theorem Outcome.ofExcept_eq_fault {x : Except Error α} {e : Error} {s s' : σ}
    (h : ofExcept x s = fault e s') : x = .error e ∧ s' = s := by
  cases x <;> cases h
  exact ⟨rfl, rfl⟩

/-! ### Sequences -/

section

variable {f : ι → σ → Outcome σ α} {e : Error} {as : List ι} {s s' : σ}

theorem length_of_evalEach {bs : List α} (h : evalEach f as s = .value bs s') :
    bs.length = as.length := by
  induction as generalizing s bs with
  | nil =>
    cases h
    rfl
  | cons a as ih =>
    obtain ⟨b, t, -, hrest⟩ := andThen_eq_value_iff.1 h
    obtain ⟨bs', t', htail, hcons⟩ := andThen_eq_value_iff.1 hrest
    cases hcons
    rw [List.length_cons, ih htail, List.length_cons]

/-- An error is that of some item, after the ones before it. -/
theorem exists_fault_of_evalEach (h : evalEach f as s = .fault e s') :
    ∃ before a after bs t, as = before ++ a :: after ∧ evalEach f before s = .value bs t ∧
      f a t = .fault e s' := by
  induction as generalizing s with
  | nil => cases h
  | cons a as ih =>
    rcases andThen_eq_fault_iff.1 h with hhead | ⟨b, t, hhead, hrest⟩
    · exact ⟨[], a, as, [], s, rfl, rfl, hhead⟩
    · rcases andThen_eq_fault_iff.1 hrest with htail | ⟨bs, t', -, hcons⟩
      · obtain ⟨before, a', after, bs, t', rfl, hbefore, hfault⟩ := ih htail
        refine ⟨a :: before, a', after, b :: bs, t', rfl, ?_, hfault⟩
        rw [evalEach, hhead, andThen_value, hbefore, andThen_value]
      · cases hcons

/-- The last value is the last one of all. -/
theorem evalLast_eq_map (last : α) :
    evalLast f last as s = (evalEach f as s).map fun bs => bs.getLastD last := by
  induction as generalizing s last with
  | nil => rfl
  | cons a as ih =>
    rw [evalLast, evalEach]
    cases f a s with
    | value b t =>
      rw [andThen_value, andThen_value, ih b]
      cases evalEach f as t with
      | value bs u => rw [andThen_value, Outcome.map, Outcome.map, List.getLastD_cons]
      | fault e u => rfl
      | unfinished u => rfl
    | fault e t => rfl
    | unfinished t => rfl

theorem exists_fault_of_evalLast {last : α} (h : evalLast f last as s = .fault e s') :
    ∃ before a after bs t, as = before ++ a :: after ∧ evalEach f before s = .value bs t ∧
      f a t = .fault e s' := by
  rw [evalLast_eq_map] at h
  cases heach : evalEach f as s with
  | value bs t =>
    rw [heach] at h
    cases h
  | fault e t =>
    rw [heach] at h
    cases h
    exact exists_fault_of_evalEach heach
  | unfinished t =>
    rw [heach] at h
    cases h

end

/-! ### Loops -/

section

variable {isTrue : α → Bool} {test body : σ → Outcome σ α}

/-- After so many turns a loop has come from one state to the other. -/
inductive Turns (isTrue : α → Bool) (test body : σ → Outcome σ α) : Nat → σ → σ → Prop
  | none (s : σ) : Turns isTrue test body 0 s s
  | turn {n : Nat} {a b : α} {s t u s' : σ} : test s = .value a t → isTrue a = true →
      body t = .value b u → Turns isTrue test body n u s' → Turns isTrue test body (n + 1) s s'

/-- An error is that of the test or of the body, in some turn. -/
theorem exists_fault_of_evalWhile {done : α} {turns : Nat} {e : Error} {s s' : σ}
    (h : evalWhile isTrue done test body turns s = .fault e s') :
    ∃ n t, n < turns ∧ Turns isTrue test body n s t ∧
      (test t = .fault e s' ∨
        ∃ a u, test t = .value a u ∧ isTrue a = true ∧ body u = .fault e s') := by
  induction turns generalizing s with
  | zero => cases h
  | succ turns ih =>
    rcases andThen_eq_fault_iff.1 h with htest | ⟨a, t, htest, hrest⟩
    · exact ⟨0, s, Nat.succ_pos turns, .none s, .inl htest⟩
    · split at hrest
      · next ha =>
        rcases andThen_eq_fault_iff.1 hrest with hbody | ⟨b, u, hbody, hagain⟩
        · exact ⟨0, s, Nat.succ_pos turns, .none s, .inr ⟨a, t, htest, ha, hbody⟩⟩
        · obtain ⟨n, t', hlt, hturns, hfault⟩ := ih hagain
          exact ⟨n + 1, t', Nat.succ_lt_succ hlt, .turn htest ha hbody hturns, hfault⟩
      · cases hrest

/-- What the test and the body keep is kept from turn to turn. -/
theorem Turns.keeps {P : σ → Prop} {n : Nat} {s s' : σ} (h : Turns isTrue test body n s s')
    (htest : ∀ s a t, P s → test s = .value a t → P t)
    (hbody : ∀ s a t, P s → body s = .value a t → P t) (hs : P s) : P s' := by
  induction h with
  | none s => exact hs
  | turn ht _ hb _ ih => exact ih (hbody _ _ _ (htest _ _ _ hs ht) hb)

end

/-! ### Calls under the trace -/

namespace Trace

variable {μ : Type} {count : Option Number} {spend : Number → Machine μ → Machine μ}
  {call : Unit → String} {m m' : Machine μ}

/-- A call that is made in one state begins in the other, after what the trace does. -/
def Enters (count : Option Number) (spend : Number → Machine μ → Machine μ)
    (call : Unit → String) (m m' : Machine μ) : Prop :=
  ∃ traced, enter count spend call m = .value traced m'

/-- An error of a line of the trace is that of the channel. -/
theorem exists_channel_of_diagLine {line : Unit → String} {e : Error}
    (h : m.diagLine line = .fault e m') : ∃ reason, e = .channel reason := by
  obtain ⟨c, hc, -⟩ := mapState_eq_fault_iff.1 h
  exact Channel.exists_reason_of_writeText hc

theorem exists_channel_of_enter {e : Error} (h : enter count spend call m = .fault e m') :
    ∃ reason, e = .channel reason := by
  unfold enter at h
  split at h
  · cases h
  · split at h
    · rcases andThen_eq_fault_iff.1 h with hopening | ⟨_, m₁, -, h⟩
      · exact exists_channel_of_diagLine hopening
      · rcases andThen_eq_fault_iff.1 h with hnotice | ⟨_, m₂, -, hend⟩
        · unfold noteLast at hnotice
          split at hnotice
          · exact exists_channel_of_diagLine hnotice
          · cases hnotice
        · cases hend
    · cases h

/-- Leaving a call ends in an error of the channel or in that of the call. -/
theorem exists_fault_of_leaveCall {text : String} {render : α → String}
    {o : Outcome (Machine μ) α} {e : Error} (h : leaveCall text render o = .fault e m') :
    (∃ reason, e = .channel reason) ∨ ∃ m₁, o = .fault e m₁ := by
  cases o with
  | value a m₁ =>
    left
    exact exists_channel_of_diagLine (map_eq_fault_iff.1 h)
  | fault err m₁ =>
    cases h
    exact .inr ⟨m₁, rfl⟩
  | unfinished m₁ => cases h

/-- An error is that of the trace's own channel or of the call. -/
theorem exists_fault_of_around {render : α → String} {run : Machine μ → Outcome (Machine μ) α}
    {e : Error} (h : around count spend call render run m = .fault e m') :
    (∃ reason, e = .channel reason) ∨
      ∃ m₁ m₂, Enters count spend call m m₁ ∧ run m₁ = .fault e m₂ := by
  rcases andThen_eq_fault_iff.1 h with henter | ⟨traced, m₁, henter, hrun⟩
  · exact .inl (exists_channel_of_enter henter)
  · split at hrun
    · refine (exists_fault_of_leaveCall hrun).imp_right ?_
      rintro ⟨m₂, hfault⟩
      exact ⟨m₁, m₂, ⟨traced, henter⟩, hfault⟩
    · exact .inr ⟨m₁, m', ⟨traced, henter⟩, hrun⟩

/-- What does not depend on the console and the indentation, and is kept when the count is
put back, is kept when a call begins. -/
theorem Enters.keeps {P : μ → Prop} (h : Enters count spend call m m') (hm : P m.memory)
    (hspend : ∀ n (s : Machine μ), P s.memory → P (spend n s).memory) : P m'.memory := by
  have hline : ∀ {s t : Machine μ} {line : Unit → String}, s.diagLine line = .value () t →
      t.memory = s.memory := by
    intro s t line hs
    have hstate := congrArg Outcome.state hs
    rw [Machine.diagLine, state_mapState] at hstate
    exact (congrArg Machine.memory hstate).symm
  obtain ⟨traced, henter⟩ := h
  unfold enter at henter
  split at henter
  · cases henter
    exact hm
  · split at henter
    · obtain ⟨_, m₁, hopening, henter⟩ := andThen_eq_value_iff.1 henter
      obtain ⟨_, m₂, hnotice, hend⟩ := andThen_eq_value_iff.1 henter
      cases hend
      have h₁ : P m₁.memory := hline hopening ▸ hm
      unfold noteLast at hnotice
      split at hnotice
      · exact hline hnotice ▸ hspend _ _ h₁
      · cases hnotice
        exact hspend _ _ h₁
    · cases henter
      exact hm

end Trace

end Primer
