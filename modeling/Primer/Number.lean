/-
Primer/Number.lean

The numbers of both languages: signed integers of 32 bits.

Arithmetic is exact or it does not happen.  Each operation computes in `Int`
and asks `Number.ofInt?` whether the result still is a number; no result is
ever wrapped or rounded into the range.  Division rounds toward zero, so the
one quotient that leaves the range is the least number divided by -1.
-/

namespace Primer

/-- A signed integer of 32 bits. -/
structure Number where
  val : Int
  low : -2147483648 ≤ val
  high : val ≤ 2147483647
deriving DecidableEq

namespace Number

/-- The number with this value, if the value is in range. -/
def ofInt? (i : Int) : Option Number :=
  if h : -2147483648 ≤ i ∧ i ≤ 2147483647 then some ⟨i, h.1, h.2⟩ else none

/-- Numbers with the same value are the same. -/
theorem eq_of_val_eq {a b : Number} (h : a.val = b.val) : a = b := by
  cases a
  cases b
  cases h
  rfl

theorem ofInt?_eq_some_iff {i : Int} {n : Number} : ofInt? i = some n ↔ n.val = i := by
  constructor
  · intro h
    unfold ofInt? at h
    split at h
    · cases h
      rfl
    · cases h
  · rintro rfl
    simp [ofInt?, n.low, n.high]

theorem ofInt?_eq_none_iff {i : Int} :
    ofInt? i = none ↔ i < -2147483648 ∨ 2147483647 < i := by
  unfold ofInt?
  split
  · simp
    omega
  · simp
    omega

@[simp] theorem ofInt?_val (n : Number) : ofInt? n.val = some n := ofInt?_eq_some_iff.2 rfl

def zero : Number := ⟨0, by decide, by decide⟩

def one : Number := ⟨1, by decide, by decide⟩

instance : Inhabited Number := ⟨zero⟩

/-- Decimal digits, with a minus sign in front of a negative number. -/
def text (n : Number) : String := toString n.val

/-- `1` for true and `0` for false. -/
def ofBool (b : Bool) : Number := if b then one else zero

/-- One less than a positive number. -/
def pred (n : Number) (h : 0 < n.val) : Number :=
  ⟨n.val - 1, by omega, by have := n.high; omega⟩

/-! ### Exact arithmetic -/

def add? (a b : Number) : Option Number := ofInt? (a.val + b.val)

def sub? (a b : Number) : Option Number := ofInt? (a.val - b.val)

def mul? (a b : Number) : Option Number := ofInt? (a.val * b.val)

/-- The quotient rounded toward zero; the divisor is not checked here. -/
def div? (a b : Number) : Option Number := ofInt? (a.val.tdiv b.val)

/-! ### Reading digits -/

/-- The value of a run of decimal digits, continuing from `acc`. -/
def digitsValue (acc : Nat) : List Char → Nat
  | [] => acc
  | c :: cs => digitsValue (acc * 10 + (c.toNat - 48)) cs

/-- An ASCII decimal digit. -/
def isDigit (c : Char) : Bool := 48 ≤ c.toNat && c.toNat ≤ 57

/-- One or more digits and nothing else. -/
def allDigits (cs : List Char) : Bool := !cs.isEmpty && cs.all isDigit

/-- The integer that a numeral denotes: at most one sign, then digits.  `none`
if the characters are not a numeral; no bound is placed on the value. -/
def numeral? : List Char → Option Int
  | '+' :: ds => if allDigits ds then some (digitsValue 0 ds) else none
  | '-' :: ds => if allDigits ds then some (-(digitsValue 0 ds : Int)) else none
  | ds => if allDigits ds then some (digitsValue 0 ds) else none

end Number

end Primer
