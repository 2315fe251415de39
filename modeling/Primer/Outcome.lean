/-
Primer/Outcome.lean

How a computation over a state ends: with a value, with an error, or not at
all within the bounds it was given.  The state is kept in all three cases, for
what was printed or assigned before an error stays printed and assigned.

`Limits` holds the two bounds of an evaluation.  The depth limit belongs to the
languages, and reaching it is an ordinary error.  The bound on the turns of a
loop is there to make evaluation total; a program that stays below it is not
affected by it.
-/
import Primer.Error

namespace Primer

/-- The end of a computation over states `σ`. -/
inductive Outcome (σ α : Type) where
  | value (a : α) (s : σ)
  | fault (e : Error) (s : σ)
  /-- a loop was still going when its turns ran out -/
  | unfinished (s : σ)

namespace Outcome

variable {σ τ α β : Type}

/-- Go on with the value and the state, if there is a value. -/
@[inline] def andThen (o : Outcome σ α) (f : α → σ → Outcome σ β) : Outcome σ β :=
  match o with
  | value a s => f a s
  | fault e s => fault e s
  | unfinished s => unfinished s

/-- Change the state at the end, whatever the end is. -/
@[inline] def mapState (f : σ → τ) (o : Outcome σ α) : Outcome τ α :=
  match o with
  | value a s => value a (f s)
  | fault e s => fault e (f s)
  | unfinished s => unfinished (f s)

/-- Change the value, if there is one. -/
@[inline] def map (f : α → β) (o : Outcome σ α) : Outcome σ β :=
  match o with
  | value a s => value (f a) s
  | fault e s => fault e s
  | unfinished s => unfinished s

/-- Change the error, if there is one. -/
@[inline] def mapError (f : Error → Error) (o : Outcome σ α) : Outcome σ α :=
  match o with
  | value a s => value a s
  | fault e s => fault (f e) s
  | unfinished s => unfinished s

/-- A result that is reached without a change of the state. -/
@[inline] def ofExcept (result : Except Error α) (s : σ) : Outcome σ α :=
  match result with
  | .ok a => value a s
  | .error e => fault e s

/-- The state at the end. -/
def state : Outcome σ α → σ
  | value _ s => s
  | fault _ s => s
  | unfinished s => s

@[simp] theorem andThen_value (a : α) (s : σ) (f : α → σ → Outcome σ β) :
    (value a s).andThen f = f a s := rfl

@[simp] theorem andThen_fault (e : Error) (s : σ) (f : α → σ → Outcome σ β) :
    (fault e s).andThen f = fault e s := rfl

@[simp] theorem andThen_unfinished (s : σ) (f : α → σ → Outcome σ β) :
    (unfinished s).andThen f = unfinished s := rfl

/-- A value at the end of two steps comes from a value of the first. -/
theorem andThen_eq_value_iff {o : Outcome σ α} {f : α → σ → Outcome σ β} {b : β} {s : σ} :
    o.andThen f = value b s ↔ ∃ a t, o = value a t ∧ f a t = value b s := by
  cases o <;> simp [and_assoc]

/-- One step after another, in either grouping. -/
theorem andThen_assoc {γ : Type} (o : Outcome σ α) (f : α → σ → Outcome σ β)
    (g : β → σ → Outcome σ γ) :
    (o.andThen f).andThen g = o.andThen fun a s => (f a s).andThen g := by
  cases o <;> rfl

/-- Where two steps end, if each of them keeps to the property `P`. -/
theorem state_andThen {P : σ → Prop} {o : Outcome σ α} {f : α → σ → Outcome σ β} (h : P o.state)
    (hf : ∀ a s, P s → P (f a s).state) : P (o.andThen f).state := by
  cases o with
  | value a s => exact hf a s h
  | fault e s => exact h
  | unfinished s => exact h

@[simp] theorem state_mapState (f : σ → τ) (o : Outcome σ α) :
    (o.mapState f).state = f o.state := by
  cases o <;> rfl

@[simp] theorem state_map (f : α → β) (o : Outcome σ α) : (o.map f).state = o.state := by
  cases o <;> rfl

@[simp] theorem state_mapError (f : Error → Error) (o : Outcome σ α) :
    (o.mapError f).state = o.state := by
  cases o <;> rfl

@[simp] theorem state_ofExcept (result : Except Error α) (s : σ) :
    (ofExcept result s).state = s := by
  cases result <;> rfl

end Outcome

/-- How far an evaluation may go. -/
structure Limits where
  /-- expressions and calls may be nested this deeply -/
  depth : Nat := 10000
  /-- a single loop may take this many turns -/
  turns : Nat := 4611686018427387904

/-! ### Sequences and loops -/

/-- Do something for each of a list and collect the values. -/
def evalEach {σ α β : Type} (f : α → σ → Outcome σ β) : List α → σ → Outcome σ (List β)
  | [], s => .value [] s
  | a :: as, s =>
      (f a s).andThen fun b s => (evalEach f as s).andThen fun bs s => .value (b :: bs) s

/-- Do something for each of a list; the value is the last one, or `last` if the
list is empty. -/
def evalLast {σ α β : Type} (f : α → σ → Outcome σ β) (last : β) : List α → σ → Outcome σ β
  | [], s => .value last s
  | a :: as, s => (f a s).andThen fun b s => evalLast f b as s

/-- Repeat `body` as long as `test` yields a value that `isTrue` accepts.  When
it does not, the value is `done`. -/
def evalWhile {σ α : Type} (isTrue : α → Bool) (done : α) (test body : σ → Outcome σ α) :
    Nat → σ → Outcome σ α
  | 0, s => .unfinished s
  | turns + 1, s =>
      (test s).andThen fun a s =>
        if isTrue a then
          (body s).andThen fun _ s => evalWhile isTrue done test body turns s
        else .value done s

end Primer
