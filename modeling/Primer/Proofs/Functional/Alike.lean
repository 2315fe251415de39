/-
Primer/Proofs/Functional/Alike.lean

Values that no primitive can tell apart.

Two values are alike if they have the same shape, the same atoms, and closures
in the same places: closures of the same function, over environments that may
differ as far as `R` allows.  Neither the printed form of a value nor any
primitive looks into an environment, so from arguments that are alike a
primitive makes results that are alike, prints the same and fails with the same
error (`run_alike`).

Whether the placeholder of recursive bindings may occur is left open; it is
alike to itself if `hole` says so.
-/
import Mathlib.Data.List.Forall2
import Primer.Functional.Primitive
import Primer.Proofs.Lockstep

namespace Primer.Functional

open Outcome

/-- The same value up to the environments of closures. -/
inductive Value.Alike (hole : Prop) (R : Lambda → Env → Env → Prop) : Value → Value → Prop
  | number (n : Number) : Alike hole R (.number n) (.number n)
  | bool (b : Bool) : Alike hole R (.bool b) (.bool b)
  | symbol (name : String) : Alike hole R (.symbol name) (.symbol name)
  | nil : Alike hole R .nil .nil
  | pair {a a' d d' : Value} :
      Alike hole R a a' → Alike hole R d d' → Alike hole R (.pair a d) (.pair a' d')
  | closure {f : Lambda} {env env' : Env} :
      R f env env' → Alike hole R (.closure f env) (.closure f env')
  | primitive (p : Primitive) : Alike hole R (.primitive p) (.primitive p)
  | unspecified : hole → Alike hole R .unspecified .unspecified

namespace Value.Alike

variable {hole : Prop} {R R' : Lambda → Env → Env → Prop} {v v' w w' : Value}

theorem imp (hR : ∀ f env env', R f env env' → R' f env env') (h : Alike hole R v v') :
    Alike hole R' v v' := by
  induction h with
  | number n => exact .number n
  | bool b => exact .bool b
  | symbol name => exact .symbol name
  | nil => exact .nil
  | pair _ _ iha ihd => exact .pair iha ihd
  | closure h => exact .closure (hR _ _ _ h)
  | primitive p => exact .primitive p
  | unspecified h => exact .unspecified h

/-- A value is like itself if its closures are. -/
theorem of_closures (hhole : hole) (v : Value) (h : ∀ c ∈ v.closures, R c.1 c.2 c.2) :
    Alike hole R v v := by
  induction v with
  | number n => exact .number n
  | bool b => exact .bool b
  | symbol name => exact .symbol name
  | nil => exact .nil
  | pair a d iha ihd =>
    simp only [closures, List.mem_append] at h
    exact .pair (iha fun c hc => h c (.inl hc)) (ihd fun c hc => h c (.inr hc))
  | closure f env => exact .closure (h (f, env) (by simp [closures]))
  | primitive p => exact .primitive p
  | unspecified => exact .unspecified hhole

/-- What relates the environments of closures holds of each closure in a value. -/
theorem exists_of_mem_closures (h : Alike hole R v v') {c : Lambda × Env} (hc : c ∈ v.closures) :
    ∃ env', R c.1 c.2 env' := by
  induction h with
  | pair _ _ iha ihd =>
    rcases List.mem_append.1 hc with hc | hc
    · exact iha hc
    · exact ihd hc
  | closure h =>
    obtain rfl := List.mem_singleton.1 hc
    exact ⟨_, h⟩
  | _ => cases hc

/-- Where environments have to be the same, so have values. -/
theorem eq (hR : ∀ f env env', R f env env' → env = env') (h : Alike hole R v v') : v = v' := by
  induction h with
  | pair _ _ iha ihd => rw [iha, ihd]
  | closure h => rw [hR _ _ _ h]
  | _ => rfl

mutual

/-- The value of a quoted datum has no closures. -/
theorem ofDatum (d : Datum) : Alike hole R (.ofDatum d) (.ofDatum d) :=
  match d with
  | .number n => .number n
  | .bool b => .bool b
  | .symbol name => .symbol name
  | .list items => ofData items

theorem ofData (ds : List Datum) : Alike hole R (.ofData ds) (.ofData ds) :=
  match ds with
  | [] => .nil
  | d :: ds => .pair (ofDatum d) (ofData ds)

end

/-! ### What a program sees of a value -/

theorem isTrue_eq (h : Alike hole R v v') : v.isTrue = v'.isTrue := by
  cases h <;> rfl

theorem isFunction_eq (h : Alike hole R v v') : v.isFunction = v'.isFunction := by
  cases h <;> rfl

theorem write_eq (h : Alike hole R v v') (before : String) :
    writeAfter before v = writeAfter before v' ∧ writeRest before v = writeRest before v' := by
  induction h generalizing before with
  | pair _ _ iha ihd =>
    simp only [writeAfter, writeRest]
    rw [(iha (before ++ "(")).1, (iha (before ++ " ")).1]
    exact ⟨(ihd _).2, (ihd _).2⟩
  | _ => exact ⟨rfl, rfl⟩

/-- Values that are alike print the same. -/
theorem text_eq (h : Alike hole R v v') : v.text = v'.text := (h.write_eq "").1

theorem map_text_eq {vs vs' : List Value} (h : List.Forall₂ (Alike hole R) vs vs') :
    vs.map Value.text = vs'.map Value.text := by
  induction h with
  | nil => rfl
  | cons hv _ ih => rw [List.map_cons, List.map_cons, hv.text_eq, ih]

theorem equalAtoms_eq (hv : Alike hole R v v') (hw : Alike hole R w w') :
    v.equalAtoms w = v'.equalAtoms w' := by
  cases hv <;> cases hw <;> rfl

theorem operand_eq (p : Primitive) (h : Alike hole R v v') : p.operand v = p.operand v' := by
  have ht := h.text_eq
  cases h with
  | number n => rfl
  | _ => simp only [Primitive.operand, ht]

end Value.Alike

/-! ### Primitives -/

namespace Primitive

variable {hole : Prop} {R : Lambda → Env → Env → Prop} {args args' : List Value}

theorem operands_eq (p : Primitive) {v v' w w' : Value} (hv : v.Alike hole R v')
    (hw : w.Alike hole R w') : p.operands v w = p.operands v' w' := by
  simp only [operands, hv.operand_eq, hw.operand_eq]

/-- From arguments that are alike, the same error or results that are alike. -/
theorem compute_alike (p : Primitive) (h : List.Forall₂ (Value.Alike hole R) args args') :
    SameResult (Value.Alike hole R) (p.compute args) (p.compute args') := by
  cases h with
  | nil => cases p <;> rfl
  | cons hv hs =>
    cases hs with
    | nil =>
      have ht := hv.text_eq
      cases p with
      | car =>
        cases hv with
        | pair ha hd => exact ha
        | _ => simp only [compute, ht]; rfl
      | cdr =>
        cases hv with
        | pair ha hd => exact hd
        | _ => simp only [compute, ht]; rfl
      | isFunction => simp only [compute, hv.isFunction_eq]; exact .bool _
      | isNull | isPair | isNumber | isSymbol | isBoolean => cases hv <;> exact .bool _
      | error => simp only [compute, ht]; rfl
      | _ => rfl
    | cons hw hs =>
      cases hs with
      | nil =>
        cases p with
        | add | sub | mul | div =>
          simp only [compute, operands_eq _ hv hw]
          refine (SameResult.refl _).bind fun a b hab => ?_
          subst hab
          exact (SameResult.refl _).bind fun n n' hn => hn ▸ .number n
        | less | greater =>
          simp only [compute, operands_eq _ hv hw]
          refine (SameResult.refl _).bind fun a b hab => ?_
          subst hab
          exact .bool _
        | equal => simp only [compute, hv.equalAtoms_eq hw]; exact .bool _
        | cons => exact .pair hv hw
        | _ => simp [compute, SameResult]
      | cons _ hs => cases p <;> simp [compute, SameResult, hs.length_eq]

/-- From arguments that are alike, the same error or results that are alike, and the
same text printed. -/
theorem run_alike (p : Primitive) (out : Channel)
    (h : List.Forall₂ (Value.Alike hole R) args args') :
    Agree Eq (Value.Alike hole R) (p.run args out) (p.run args' out) := by
  have hcompute : Agree Eq (Value.Alike hole R) (.ofExcept (p.compute args) out)
      (.ofExcept (p.compute args') out) := .ofExcept (p.compute_alike h) rfl
  have hprinted {v v' : Value} (hv : v.Alike hole R v') (printed : Outcome Channel Unit) :
      Agree Eq (Value.Alike hole R) (printed.map fun _ => v) (printed.map fun _ => v') :=
    (Agree.refl printed).map fun _ _ _ _ _ => hv
  cases h with
  | nil => cases p <;> exact hcompute
  | cons hv hs =>
    cases hs with
    | cons hw hs => cases p <;> simpa only [run] using hcompute
    | nil =>
      cases p with
      | print =>
        have ht := hv.text_eq
        cases hv with
        | symbol name => exact hprinted (.symbol name) _
        | _ =>
          simp only [run, ht]
          refine hprinted ?_ _
          constructor <;> assumption
      | println =>
        simp only [run, hv.text_eq]
        exact hprinted hv _
      | printu =>
        simp only [run, hv.operand_eq]
        refine (Agree.refl _).andThen ?_
        rintro _ _ n _ out _ rfl rfl
        exact hprinted hv _
      | _ => exact hcompute

end Primitive

end Primer.Functional
