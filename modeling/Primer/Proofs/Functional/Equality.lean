/-
Primer/Proofs/Functional/Equality.lean

Equality of values.

`Value.Same` says without a comparison when two values are the same: the same
atoms in the same places of the same pairs, and the same functions.  A function
is known by its identity, a closure by the label of its lambda expression and by
its environment.  There is no rule for the placeholder of recursive bindings,
which is therefore not even the same as itself.

`Value.equal` decides this relation (`equal_iff_same`).  So what holds of the
comparison can be proved by induction on why two values are the same, with one
case for each kind of value rather than one for each two of them.
-/
import Primer.Proofs.Functional.Placeholder

namespace Primer.Functional

/-! ### Primitives have names of their own -/

theorem Primitive.ofName?_name (p : Primitive) : ofName? p.name = some p := by
  cases p <;> rfl

theorem Primitive.name_inj {p p' : Primitive} : p.name = p'.name ↔ p = p' := by
  refine ⟨fun h => ?_, congrArg name⟩
  have hname : some p = some p' := by rw [← ofName?_name, h, ofName?_name]
  exact Option.some.inj hname

namespace Value

/-! ### The same value -/

/-- The same data, up to the identity of functions in them. -/
inductive Same : Value → Value → Prop
  | number (n : Number) : Same (.number n) (.number n)
  | bool (b : Bool) : Same (.bool b) (.bool b)
  | symbol (name : String) : Same (.symbol name) (.symbol name)
  | nil : Same .nil .nil
  | pair {a a' d d' : Value} : Same a a' → Same d d' → Same (.pair a d) (.pair a' d')
  | closure {f f' : Lambda} {env : Env} : f.label = f'.label →
      Same (.closure f env) (.closure f' env)
  | primitive (p : Primitive) : Same (.primitive p) (.primitive p)

namespace Same

variable {u v w : Value}

theorem symm (h : Same v w) : Same w v := by
  induction h with
  | pair _ _ iha ihd => exact .pair iha ihd
  | closure hlabel => exact .closure hlabel.symm
  | number n => exact .number n
  | bool b => exact .bool b
  | symbol name => exact .symbol name
  | nil => exact .nil
  | primitive p => exact .primitive p

theorem trans (h : Same u v) (h' : Same v w) : Same u w := by
  induction h generalizing w with
  | pair _ _ iha ihd =>
    cases h' with
    | pair ha hd => exact .pair (iha ha) (ihd hd)
  | closure hlabel =>
    cases h' with
    | closure hlabel' => exact .closure (hlabel.trans hlabel')
  | _ => exact h'

/-- Only a value without placeholders is the same as any. -/
theorem hasPlaceholder_eq_false (h : Same v w) : v.hasPlaceholder = false := by
  induction h with
  | pair _ _ iha ihd => rw [hasPlaceholder, iha, ihd, Bool.or_false]
  | _ => rfl

theorem of_hasPlaceholder (h : v.hasPlaceholder = false) : Same v v := by
  induction v with
  | number n => exact .number n
  | bool b => exact .bool b
  | symbol name => exact .symbol name
  | nil => exact .nil
  | pair a d iha ihd =>
    obtain ⟨ha, hd⟩ := Bool.or_eq_false_iff.1 h
    exact .pair (iha ha) (ihd hd)
  | closure f env => exact .closure rfl
  | primitive p => exact .primitive p
  | unspecified => cases h

/-- Values that are the same without being the same atom: two pairs of the same parts, or
twice the same function. -/
theorem kind_iff : Same v w ∧ v.equalAtoms w = false ↔
    (∃ a d a' d', v = .pair a d ∧ w = .pair a' d' ∧ Same a a' ∧ Same d d') ∨
    (∃ f env f' env', v = .closure f env ∧ w = .closure f' env' ∧
      f.label = f'.label ∧ env = env') ∨
    ∃ p p', v = .primitive p ∧ w = .primitive p' ∧ p.name = p'.name := by
  constructor
  · rintro ⟨h, hatoms⟩
    cases h with
    | pair ha hd => exact .inl ⟨_, _, _, _, rfl, rfl, ha, hd⟩
    | closure hlabel => exact .inr (.inl ⟨_, _, _, _, rfl, rfl, hlabel, rfl⟩)
    | primitive p => exact .inr (.inr ⟨p, p, rfl, rfl, rfl⟩)
    | number | bool | symbol | nil => simp [equalAtoms] at hatoms
  · rintro (⟨a, d, a', d', rfl, rfl, ha, hd⟩ | ⟨f, env, f', _, rfl, rfl, hlabel, rfl⟩ |
      ⟨p, p', rfl, rfl, hname⟩)
    · exact ⟨.pair ha hd, rfl⟩
    · exact ⟨.closure hlabel, rfl⟩
    · obtain rfl := Primitive.name_inj.1 hname
      exact ⟨.primitive p, rfl⟩

end Same

/-! ### The comparison -/

theorem same_of_equalAtoms {v w : Value} (h : v.equalAtoms w = true) : Same v w := by
  cases v <;> cases w <;> simp only [equalAtoms, beq_iff_eq, Bool.false_eq_true] at h
  · subst h
    exact .number _
  · subst h
    exact .bool _
  · subst h
    exact .symbol _
  · exact .nil

theorem equal_iff_same {v w : Value} : v.equal w = true ↔ Same v w := by
  constructor
  · intro h
    fun_induction equal v w with
    | case1 a d a' d' iha ihd =>
      obtain ⟨ha, hd⟩ := Bool.and_eq_true_iff.1 h
      exact .pair (iha ha) (ihd hd)
    | case2 f env f' env' =>
      obtain ⟨hlabel, henv⟩ := Bool.and_eq_true_iff.1 h
      obtain rfl := eq_of_beq henv
      exact .closure (eq_of_beq hlabel)
    | case3 p p' =>
      obtain rfl := eq_of_beq h
      exact .primitive p
    | case4 v w => exact same_of_equalAtoms h
  · intro h
    induction h with
    | pair _ _ iha ihd => rw [equal, iha, ihd, Bool.and_true]
    | closure hlabel => simp [equal, hlabel]
    | primitive p => exact beq_self_eq_true p
    | number | bool | symbol | nil => simp [equal, equalAtoms]

theorem equal_comm (v w : Value) : v.equal w = w.equal v := by
  rw [Bool.eq_iff_iff, equal_iff_same, equal_iff_same]
  exact ⟨Same.symm, Same.symm⟩

theorem equal_self_iff {v : Value} : v.equal v = true ↔ v.hasPlaceholder = false := by
  rw [equal_iff_same]
  exact ⟨Same.hasPlaceholder_eq_false, Same.of_hasPlaceholder⟩

/-- **Equality of values is a partial equivalence.**  It is symmetric and transitive.  A value
equals itself exactly if it is not the placeholder and has none inside pairs, at any depth.
Equality of atoms is a part of it, and what it has beyond that are two pairs with equal
parts, two closures of the same lambda expression over the same environment, and a primitive
with itself.  The label of a lambda expression says which one it is. -/
theorem equal_is_partial_equivalence :
    (∀ v w : Value, v.equal w = w.equal v) ∧
    (∀ u v w : Value, u.equal v = true → v.equal w = true → u.equal w = true) ∧
    (∀ v : Value, v.equal v = true ↔ v.hasPlaceholder = false) ∧
    (∀ v w : Value, v.equalAtoms w = true → v.equal w = true) ∧
    ∀ v w : Value, v.equal w = true ∧ v.equalAtoms w = false ↔
      (∃ a d a' d', v = .pair a d ∧ w = .pair a' d' ∧ a.equal a' = true ∧ d.equal d' = true) ∨
      (∃ f env f' env', v = .closure f env ∧ w = .closure f' env' ∧
        f.label = f'.label ∧ env = env') ∨
      ∃ p p', v = .primitive p ∧ w = .primitive p' ∧ p.name = p'.name := by
  refine ⟨equal_comm, fun u v w => ?_, fun v => equal_self_iff, fun v w hatoms => ?_, fun v w => ?_⟩
  · simp only [equal_iff_same]
    exact Same.trans
  · exact equal_iff_same.2 (same_of_equalAtoms hatoms)
  · simp only [equal_iff_same]
    exact Same.kind_iff

/-- A function equals itself without being an atom; with a placeholder beside it in a list,
the list does not equal itself. -/
theorem equal_is_partial_equivalence_list :
    let f : Value := .closure ⟨0, ["x"], .var "x"⟩ ⟨0, []⟩
    let v : Value := .ofList [f, .unspecified]
    (f.equal f = true ∧ f.equalAtoms f = false) ∧ v.equal v = false := by
  intro f v
  obtain ⟨-, -, hself, -, hkind⟩ := equal_is_partial_equivalence
  refine ⟨(hkind f f).2 (.inr (.inl ⟨_, _, _, _, rfl, rfl, rfl, rfl⟩)), ?_⟩
  rw [Bool.eq_false_iff, Ne, hself]
  decide

end Value

end Primer.Functional
