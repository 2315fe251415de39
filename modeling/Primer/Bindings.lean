/-
Primer/Bindings.lean

Finite maps from names, as lists of pairs.  `set` replaces the value of a name
that is bound and otherwise adds the name at the end, so bindings made by `set`
alone have distinct names.
-/

namespace Primer

/-- Names with what they are bound to. -/
abbrev Bindings (α : Type) := List (String × α)

namespace Bindings

variable {α : Type}

/-- What a name is bound to. -/
def get? (name : String) : Bindings α → Option α
  | [] => none
  | (x, a) :: bs => if x = name then some a else get? name bs

/-- Bind a name, in place of what it was bound to before. -/
def set (name : String) (value : α) : Bindings α → Bindings α
  | [] => [(name, value)]
  | (x, a) :: bs => if x = name then (x, value) :: bs else (x, a) :: set name value bs

/-- Whether a name is bound. -/
def has (name : String) (bs : Bindings α) : Bool := bs.any fun (x, _) => x = name

/-- The bindings of a list of pairs; of a repeated name the last value stays. -/
def ofList (pairs : List (String × α)) : Bindings α :=
  pairs.foldl (fun bs (x, a) => bs.set x a) []

/-- In the order of the names. -/
def sorted (bs : Bindings α) : List (String × α) :=
  bs.mergeSort fun a b => decide (a.1 ≤ b.1)

def names (bs : Bindings α) : List String := bs.map (·.1)

/-! ### What `set` does to look-up and names -/

@[simp] theorem get?_set_self (x : String) (a : α) (bs : Bindings α) :
    (bs.set x a).get? x = some a := by
  induction bs with
  | nil => simp [set, get?]
  | cons b bs ih =>
    simp only [set]
    split
    · next h => simp [get?, h]
    · next h => simpa [get?, h] using ih

theorem get?_set_ne {x y : String} (h : x ≠ y) (a : α) (bs : Bindings α) :
    (bs.set x a).get? y = bs.get? y := by
  induction bs with
  | nil => simp [set, get?, h]
  | cons b bs ih =>
    simp only [set]
    split
    · next hb => simp [get?, hb, h]
    · simp [get?, ih]

theorem has_eq_isSome (x : String) (bs : Bindings α) : bs.has x = (bs.get? x).isSome := by
  induction bs with
  | nil => rfl
  | cons b bs ih =>
    by_cases h : b.1 = x
    · simp [has, get?, h]
    · simpa [has, get?, h] using ih

/-- A name that is bound keeps its place; any other comes last. -/
theorem names_set (x : String) (a : α) (bs : Bindings α) :
    (bs.set x a).names = if bs.has x then bs.names else bs.names ++ [x] := by
  induction bs with
  | nil => rfl
  | cons b bs ih =>
    by_cases h : b.1 = x
    · simp [set, has, names, h]
    · have hb : has x (b :: bs) = has x bs := by simp [has, h]
      simp only [set, h, if_false, names, List.map_cons, hb] at ih ⊢
      rw [ih]
      split <;> rfl

end Bindings

/-- The first name that occurs a second time; `seen` are the names before. -/
def firstRepeated (seen : List String) : List String → Option String
  | [] => none
  | x :: xs => if seen.contains x then some x else firstRepeated (x :: seen) xs

/-- The first name of a list that occurred in it before. -/
def repeated? (names : List String) : Option String := firstRepeated [] names

theorem firstRepeated_eq_none_iff {seen names : List String} :
    firstRepeated seen names = none ↔ names.Nodup ∧ ∀ x ∈ names, x ∉ seen := by
  induction names generalizing seen with
  | nil => simp [firstRepeated]
  | cons x xs ih =>
    by_cases h : x ∈ seen
    · simp [firstRepeated, h]
    · simp only [firstRepeated, List.contains_iff_mem, h, if_false, ih, List.nodup_cons]
      constructor
      · rintro ⟨hn, hs⟩
        refine ⟨⟨fun hx => by simpa using hs x hx, hn⟩, ?_⟩
        intro y hy
        rcases List.mem_cons.1 hy with rfl | hy
        · exact h
        · exact fun hys => hs y hy (List.mem_cons_of_mem _ hys)
      · rintro ⟨⟨hx, hn⟩, hs⟩
        refine ⟨hn, fun y hy hys => ?_⟩
        rcases List.mem_cons.1 hys with rfl | hys
        · exact hx hy
        · exact hs y (List.mem_cons_of_mem _ hy) hys

/-- No name is repeated exactly if the names are pairwise different. -/
theorem repeated?_eq_none_iff {names : List String} : repeated? names = none ↔ names.Nodup := by
  simp [repeated?, firstRepeated_eq_none_iff]

end Primer
