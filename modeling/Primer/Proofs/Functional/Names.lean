/-
Primer/Proofs/Functional/Names.lean

The names in an expression: all that occur in it (`Exp.names`), and those that
occur free (`Exp.free`).  The target of an assignment counts as an occurrence.
The two differ only in what becomes of the names in a body when the names of its
frame are known: the ones are added, or they are taken away.  So both are cases
of `Exp.collect`, and what is true of parts and bodies is shown there.
-/
import Primer.Proofs.Functional.Simulation

namespace Primer.Functional.Exp

mutual

/-- The names that occur in an expression.  `scope bound inner` are the names of
bodies that have the names `inner` and stand in a frame that binds `bound`. -/
def collect (scope : List String → List String → List String) : Exp → List String
  | literal _ => []
  | var x => [x]
  | set x e => x :: collect scope e
  | cond test yes no => collect scope test ++ collect scope yes ++ collect scope no
  | loop test body => collect scope test ++ collect scope body
  | block parts => collectEach scope parts
  | apply callee args => collect scope callee ++ collectEach scope args
  | lambda _ formals body => scope formals (collect scope body)
  | bind .plain bindings body =>
      collectInitial scope bindings ++ scope (bindings.map (·.1)) (collect scope body)
  | bind .sequential bindings body => collectSequential scope bindings (collect scope body)
  | bind .recursive bindings body =>
      scope (bindings.map (·.1)) (collectInitial scope bindings ++ collect scope body)

def collectEach (scope : List String → List String → List String) : List Exp → List String
  | [] => []
  | e :: es => collect scope e ++ collectEach scope es

/-- The names in initial values. -/
def collectInitial (scope : List String → List String → List String) :
    List (String × Exp) → List String
  | [] => []
  | (_, e) :: bs => collect scope e ++ collectInitial scope bs

/-- The names in sequential bindings whose body has the names `body`. -/
def collectSequential (scope : List String → List String → List String) :
    List (String × Exp) → List String → List String
  | [], body => body
  | (x, e) :: bs, body => collect scope e ++ scope [x] (collectSequential scope bs body)

end

/-- The names of bodies that the frame around them does not bind. -/
def unbound (bound inner : List String) : List String := inner.filter (· ∉ bound)

/-- All the names in an expression: variables, targets of assignments, formal
parameters and bound names. -/
def names (e : Exp) : List String := e.collect (· ++ ·)

/-- The names that are free in an expression. -/
def free (e : Exp) : List String := e.collect unbound

variable {scope : List String → List String → List String} {x : String}

theorem mem_collectEach {e : Exp} {es : List Exp} (he : e ∈ es) (hx : x ∈ e.collect scope) :
    x ∈ collectEach scope es := by
  induction es with
  | nil => cases he
  | cons e' es ih =>
    rw [collectEach, List.mem_append]
    rcases List.mem_cons.1 he with rfl | he
    · exact .inl hx
    · exact .inr (ih he)

theorem mem_collectInitial {b : String × Exp} {bs : List (String × Exp)} (hb : b ∈ bs)
    (hx : x ∈ b.2.collect scope) : x ∈ collectInitial scope bs := by
  induction bs with
  | nil => cases hb
  | cons b' bs ih =>
    rw [collectInitial, List.mem_append]
    rcases List.mem_cons.1 hb with rfl | hb
    · exact .inl hx
    · exact .inr (ih hb)

/-- What occurs in a part occurs in the whole. -/
theorem collect_part {e part : Exp} (h : part ∈ e.parts) (hx : x ∈ part.collect scope) :
    x ∈ e.collect scope := by
  cases e with
  | literal d => cases h
  | var y => cases h
  | lambda label formals body => cases h
  | set y e =>
    obtain rfl : part = e := by simpa [parts] using h
    exact List.mem_cons_of_mem y hx
  | cond test yes no =>
    simp only [parts, List.mem_cons, List.not_mem_nil, or_false] at h
    rcases h with rfl | rfl | rfl <;> simp [collect, hx]
  | loop test body =>
    simp only [parts, List.mem_cons, List.not_mem_nil, or_false] at h
    rcases h with rfl | rfl <;> simp [collect, hx]
  | block parts => exact mem_collectEach h hx
  | apply callee args =>
    rw [collect, List.mem_append]
    rcases List.mem_cons.1 h with rfl | h
    · exact .inl hx
    · exact .inr (mem_collectEach h hx)
  | bind kind bindings body =>
    cases kind with
    | plain =>
      obtain ⟨b, hb, rfl⟩ := List.mem_map.1 h
      rw [collect, List.mem_append]
      exact .inl (mem_collectInitial hb hx)
    | sequential =>
      cases bindings with
      | nil =>
        obtain rfl : part = body := by simpa [parts] using h
        exact hx
      | cons b bs =>
        obtain rfl : part = b.2 := by simpa [parts] using h
        rw [collect, collectSequential, List.mem_append]
        exact .inl hx
    | recursive => cases h

/-- What occurs in any bodies that include a given one, seen from outside of their
frame, occurs in the whole. -/
theorem collect_body {e body : Exp} {bound : List String} (h : (bound, body) ∈ e.bodies)
    (hx : ∀ inner, (∀ y ∈ body.collect scope, y ∈ inner) → x ∈ scope bound inner) :
    x ∈ e.collect scope := by
  cases e with
  | lambda label formals body =>
    obtain ⟨rfl, rfl⟩ : bound = formals ∧ _ = body := by simpa [bodies] using h
    exact hx _ fun y hy => hy
  | bind kind bindings body =>
    cases kind with
    | plain =>
      obtain ⟨rfl, rfl⟩ : bound = bindings.map (·.1) ∧ _ = body := by simpa [bodies] using h
      rw [collect, List.mem_append]
      exact .inr (hx _ fun y hy => hy)
    | sequential =>
      cases bindings with
      | nil => cases h
      | cons b bs =>
        obtain ⟨rfl, rfl⟩ : bound = [b.1] ∧ _ = bind .sequential bs body := by
          simpa [bodies] using h
        rw [collect, collectSequential, List.mem_append]
        exact .inr (hx _ fun y hy => by rwa [collect] at hy)
    | recursive =>
      simp only [bodies, List.mem_cons, List.mem_map, Prod.mk.injEq] at h
      rw [collect]
      rcases h with ⟨rfl, rfl⟩ | ⟨b, hb, rfl, rfl⟩
      · exact hx _ fun y hy => List.mem_append_right _ hy
      · exact hx _ fun y hy => List.mem_append_left _ (mem_collectInitial hb hy)
  | _ => cases h

theorem names_part {e part : Exp} (h : part ∈ e.parts) (hx : x ∈ part.names) : x ∈ e.names :=
  collect_part h hx

/-- What occurs in a body, or is bound by its frame, occurs in the whole. -/
theorem names_body {e body : Exp} {bound : List String} (h : (bound, body) ∈ e.bodies)
    (hx : x ∈ bound ∨ x ∈ body.names) : x ∈ e.names :=
  collect_body h fun _ hinner => List.mem_append.2 (hx.imp id (hinner x))

theorem free_part {e part : Exp} (h : part ∈ e.parts) (hx : x ∈ part.free) : x ∈ e.free :=
  collect_part h hx

/-- What is free in a body is bound by its frame or free in the whole. -/
theorem free_body {e body : Exp} {bound : List String} (h : (bound, body) ∈ e.bodies)
    (hx : x ∈ body.free) : x ∈ bound ∨ x ∈ e.free := by
  by_cases hb : x ∈ bound
  · exact .inl hb
  · refine .inr (collect_body h fun inner hinner => ?_)
    simpa [unbound, hb] using hinner x hx

end Primer.Functional.Exp
