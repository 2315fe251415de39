/-
Primer/Proofs/Catalogs.lean

The primitives that the two languages have in common.

Each primitive of the procedural language has a counterpart of the same name in the
functional language.  The two catalogs are written apart.  One knows only numbers, and its
comparisons answer with 1 and 0; the other first finds out whether its operands are
numbers, prints any value, and compares with `#t` and `#f` as answers.  Applied to numbers
they do the same (`Primitive.run_counterpart`): the same error, or answers that say the
same and the same text written, for any number of arguments and on any channel.

Arithmetic is compared with that of the integers (`IsExact`, `IsDivided`).  Rounding toward
zero is described without a division (`IsQuotient`), by inequalities that only one integer
satisfies.  It is enough to look at the arithmetic of one language, as the catalogs agree.
-/
import Mathlib.Algebra.Ring.Int.Defs
import Primer.Procedural.Interpreter
import Primer.Proofs.Functional.Equality
import Primer.Proofs.Lockstep
import Primer.Proofs.Results
import Primer.Proofs.Spelling

namespace Primer

open Outcome

/-! ### Exact arithmetic -/

/-- A result of arithmetic that comes to the integer `i`: the number `i` if it has 32 bits,
and an overflow otherwise. -/
structure IsExact (i : Int) (result : Except Error Number) : Prop where
  ok : -2 ^ 31 ≤ i → i ≤ 2 ^ 31 - 1 → ∃ n, result = .ok n ∧ n.val = i
  overflow : i < -2 ^ 31 ∨ 2 ^ 31 - 1 < i → result = .error (.overflow none)

theorem isExact_inRange (i : Int) : IsExact i (Arithmetic.inRange (Number.ofInt? i)) where
  ok hlow hhigh := by
    have hsome : Number.ofInt? i = some ⟨i, hlow, hhigh⟩ := Number.ofInt?_eq_some_iff.2 rfl
    rw [hsome]
    exact ⟨_, rfl, rfl⟩
  overflow hout := by
    rw [Number.ofInt?_eq_none_iff.2 hout]
    rfl

/-! ### Division -/

/-- `q` is the quotient of `a` by `b` rounded toward zero: it differs from the exact quotient
by less than one, and it is not farther from zero.  Both are said of the products with `b`. -/
structure IsQuotient (a b q : Int) : Prop where
  near : (a - q * b).natAbs < b.natAbs
  inner : (q * b).natAbs ≤ a.natAbs

theorem isQuotient_tdiv (a : Int) {b : Int} (hb : b ≠ 0) : IsQuotient a b (a.tdiv b) where
  near := by
    have hrest : a - a.tdiv b * b = a.tmod b := by
      have hsum := Int.mul_tdiv_add_tmod a b
      rw [Int.mul_comm] at hsum
      omega
    rw [hrest, Int.natAbs_tmod]
    exact Nat.mod_lt _ (Int.natAbs_pos.2 hb)
  inner := by
    rw [Int.natAbs_mul, Int.natAbs_tdiv]
    exact Nat.div_mul_le_self _ _

namespace IsQuotient

variable {a b q q' : Int}

theorem unique (h : IsQuotient a b q) (h' : IsQuotient a b q') : q = q' := by
  -- both rests are on the same side of zero as `a`, so they differ by less than `b`
  have hlt : ((q - q') * b).natAbs < b.natAbs := by
    obtain ⟨hnear, hinner⟩ := h
    obtain ⟨hnear', hinner'⟩ := h'
    rw [Int.sub_mul]
    omega
  have hzero : (q - q') * b = 0 :=
    Int.eq_zero_of_dvd_of_natAbs_lt_natAbs (Int.dvd_mul_left (q - q') b) hlt
  rcases Int.mul_eq_zero.1 hzero with hq | hb
  · exact Int.sub_eq_zero.1 hq
  · rw [hb] at hlt
    exact absurd hlt (Nat.not_lt_zero _)

/-- The one quotient of numbers that is not a number. -/
theorem outOfRange_iff (h : IsQuotient a b q) (hlow : -2 ^ 31 ≤ a) (hhigh : a ≤ 2 ^ 31 - 1) :
    q < -2 ^ 31 ∨ 2 ^ 31 - 1 < q ↔ a = -2 ^ 31 ∧ b = -1 := by
  obtain ⟨hnear, hinner⟩ := h
  constructor
  · intro hout
    have hunit : b.natAbs < 2 := by
      rw [Int.natAbs_mul] at hinner
      by_contra hb
      have hdouble := Nat.mul_le_mul_left q.natAbs (Nat.not_lt.1 hb)
      omega
    -- then there is no rest, and only the sign of the quotient can change
    obtain rfl | rfl : b = 1 ∨ b = -1 := by omega
    · omega
    · omega
  · rintro ⟨rfl, rfl⟩
    omega

end IsQuotient

/-- A result of dividing `a` by `b`: an error for the divisor zero, an overflow for the one
quotient that does not have 32 bits, and otherwise the quotient rounded toward zero. -/
structure IsDivided (a b : Int) (result : Except Error Number) : Prop where
  divisionByZero_iff : result = .error (.divisionByZero none) ↔ b = 0
  overflow_iff : result = .error (.overflow none) ↔ a = -2 ^ 31 ∧ b = -1
  ok : b ≠ 0 → ¬(a = -2 ^ 31 ∧ b = -1) →
    ∃ n, result = .ok n ∧ ∀ q, IsQuotient a b q ↔ q = n.val

theorem isDivided_div (a b : Number) : IsDivided a.val b.val (Arithmetic.div a b) := by
  unfold Arithmetic.div
  split
  · next hb => exact ⟨by simp [hb], by simp [hb], fun hne => absurd hb hne⟩
  · next hb =>
    have hquotient := isQuotient_tdiv a.val hb
    have hleast := hquotient.outOfRange_iff a.low a.high
    cases hdiv : a.div? b with
    | none =>
      have hout := hleast.1 (Number.ofInt?_eq_none_iff.1 hdiv)
      exact ⟨by simp [Arithmetic.inRange, hb], by simp [Arithmetic.inRange, hout],
        fun _ hne => absurd hout hne⟩
    | some n =>
      have hval : n.val = a.val.tdiv b.val := Number.ofInt?_eq_some_iff.1 hdiv
      rw [← hval] at hquotient hleast
      have hin : ¬(a.val = -2 ^ 31 ∧ b.val = -1) := by
        rw [← hleast]
        have hlow := n.low
        have hhigh := n.high
        omega
      refine ⟨by simp [Arithmetic.inRange, hb], by simpa [Arithmetic.inRange] using hin, ?_⟩
      intro _ _
      refine ⟨n, rfl, fun q => ⟨fun hq => hq.unique hquotient, ?_⟩⟩
      rintro rfl
      exact hquotient

/-! ### The counterparts of primitives -/

/-- The number of arguments is checked before anything else. -/
theorem Functional.Primitive.run_of_length_ne {q : Functional.Primitive}
    {args : List Functional.Value} (h : args.length ≠ q.arity) (out : Channel) :
    q.run args out = .fault (.arity q.arity args.length none) out := by
  have hcompute : q.compute args = .error (.arity q.arity args.length none) := by
    unfold compute
    split
    case h_20 => rfl
    all_goals exact absurd rfl h
  unfold run
  split
  case h_5 =>
    rw [hcompute]
    rfl
  all_goals exact absurd rfl h

theorem Functional.Value.text_number (n : Number) : (Functional.Value.number n).text = n.text :=
  String.empty_append

theorem Number.isEmpty_text (n : Number) : n.text.isEmpty = false := by
  rw [← Bool.not_eq_true, String.isEmpty_iff]
  intro hempty
  exact n.isAtom_text.nonempty (congrArg String.toList hempty)

namespace Procedural.Primitive

theorem run_of_length_ne {p : Primitive} {args : List Number} (h : args.length ≠ p.arity)
    (out : Channel) : p.run args out = .fault (.arity p.arity args.length none) out := by
  unfold run
  split
  case h_11 => rfl
  all_goals exact absurd rfl h

theorem ofName?_name (p : Primitive) : ofName? p.name = some p := by
  cases p <;> rfl

theorem name_of_ofName? {name : String} {p : Primitive} (h : ofName? name = some p) :
    p.name = name := by
  have hname := List.find?_some h
  exact eq_of_beq hname

/-- The primitive of the functional language with the same name. -/
def counterpart : Primitive → Functional.Primitive
  | add => .add
  | sub => .sub
  | mul => .mul
  | div => .div
  | less => .less
  | greater => .greater
  | equal => .equal
  | print => .print
  | println => .println
  | printu => .printu

theorem ofName?_counterpart (p : Primitive) :
    Functional.Primitive.ofName? p.name = some p.counterpart := by
  have hname : p.counterpart.name = p.name := by cases p <;> rfl
  rw [← hname, Functional.Primitive.ofName?_name]

theorem arity_counterpart (p : Primitive) : p.counterpart.arity = p.arity := by
  cases p <;> rfl

/-- The answers of a primitive in both languages say the same: 1 and `#t` or 0 and `#f` if it
compares, and the same number if it does not. -/
def SameAnswer (p : Primitive) (n : Number) (v : Functional.Value) : Prop :=
  match p with
  | less | greater | equal => n.val = 1 ∧ v = .bool true ∨ n.val = 0 ∧ v = .bool false
  | _ => v = .number n

/-- The same error, or answers that say the same, and in both cases the same is written. -/
inductive SameEffect (p : Primitive) :
    Outcome Channel Number → Outcome Channel Functional.Value → Prop where
  | value {n : Number} {v : Functional.Value} {out : Channel} :
      p.SameAnswer n v → SameEffect p (.value n out) (.value v out)
  | fault {e : Error} {out : Channel} : SameEffect p (.fault e out) (.fault e out)

variable {p : Primitive}

/-- A primitive that makes a number of numbers. -/
theorem sameEffect_number (hp : ∀ n, p.SameAnswer n (.number n)) (result : Except Error Number)
    (out : Channel) :
    p.SameEffect (.ofExcept result out)
      (.ofExcept (result >>= fun n => pure (.number n)) out) := by
  cases result with
  | ok n => exact .value (hp n)
  | error e => exact .fault

/-- A primitive that compares numbers. -/
theorem sameEffect_bool
    (hp : p.SameAnswer .one (.bool true) ∧ p.SameAnswer .zero (.bool false)) (b : Bool)
    (out : Channel) : p.SameEffect (.value (.ofBool b) out) (.value (.bool b) out) := by
  cases b with
  | true => exact .value hp.1
  | false => exact .value hp.2

/-- A primitive that writes and returns its argument. -/
theorem sameEffect_written {n : Number} (hp : p.SameAnswer n (.number n))
    {written : Outcome Channel Unit} (hwritten : written.finished = true) :
    p.SameEffect (written.map fun _ => n) (written.map fun _ => .number n) := by
  cases written with
  | value _ out => exact .value hp
  | fault e out => exact .fault
  | unfinished out => cases hwritten

/-- A primitive that prints its argument.  In the functional language the text is made late,
which would be noticed only if it were empty. -/
theorem sameEffect_text {n : Number} (hp : p.SameAnswer n (.number n)) {text : String}
    {late : Unit → String} (hlate : late () = text) (hempty : text.isEmpty = false)
    (out : Channel) :
    p.SameEffect ((out.write text).map fun _ => n)
      ((out.writeText late).map fun _ => .number n) := by
  subst hlate
  rw [Channel.writeText_eq_write out _ hempty]
  exact sameEffect_written hp (out.finished_write _)

/-- On numbers a primitive and its counterpart do the same. -/
theorem run_counterpart (p : Primitive) (args : List Number) (out : Channel) :
    p.SameEffect (p.run args out) (p.counterpart.run (args.map .number) out) := by
  by_cases hlen : args.length = p.arity
  · cases p with
    | add | sub | mul | div =>
      obtain ⟨a, b, rfl⟩ := List.length_eq_two.1 hlen
      refine sameEffect_number (fun n => ?_) _ out
      rfl
    | less | greater | equal =>
      obtain ⟨a, b, rfl⟩ := List.length_eq_two.1 hlen
      refine sameEffect_bool ?_ _ out
      exact ⟨.inl ⟨rfl, rfl⟩, .inr ⟨rfl, rfl⟩⟩
    | print =>
      obtain ⟨n, rfl⟩ := List.length_eq_one_iff.1 hlen
      refine sameEffect_text ?_ (Functional.Value.text_number n) n.isEmpty_text out
      rfl
    | println =>
      obtain ⟨n, rfl⟩ := List.length_eq_one_iff.1 hlen
      have hline : (n.text ++ "\n").isEmpty = false := by
        rw [← Bool.not_eq_true, String.isEmpty_iff]
        simp
      refine sameEffect_text ?_ (congrArg (· ++ "\n") (Functional.Value.text_number n)) hline out
      rfl
    | printu =>
      obtain ⟨n, rfl⟩ := List.length_eq_one_iff.1 hlen
      refine sameEffect_written ?_ (out.finished_emitCharacter n)
      rfl
  · -- the wrong number of arguments, and both say so
    have hlen' : (args.map Functional.Value.number).length ≠ p.counterpart.arity := by
      rwa [List.length_map, arity_counterpart]
    rw [run_of_length_ne hlen, Functional.Primitive.run_of_length_ne hlen', List.length_map,
      arity_counterpart]
    exact .fault

/-- Calls of a primitive in both languages, whose texts are the same and whose consoles are
the same so far, end with the same error or with answers that say the same, and leave the
consoles the same. -/
theorem agree_applyPrimitive (p : Primitive) (args : List Number) {call : Exp}
    {call' : Functional.Exp} (hcall : call.text = call'.text) {m : State}
    {m' : Functional.State} (hconsole : m.console = m'.console) :
    Agree (fun s s' => s.console = s'.console) p.SameAnswer (applyPrimitive p args call m)
      (Functional.applyPrimitive p.counterpart (args.map .number) call' m') := by
  unfold applyPrimitive Functional.applyPrimitive
  rw [← hconsole, ← hcall]
  have hout : ∀ out, (m.withOut out).console = (m'.withOut out).console := by
    intro out
    rw [Machine.withOut, Machine.withOut, hconsole]
  have heffect := p.run_counterpart args m.console.out
  generalize p.run args m.console.out = o, p.counterpart.run _ m.console.out = o' at heffect ⊢
  cases heffect with
  | value hanswer => exact .value le_rfl (hout _) hanswer
  | fault => exact .fault le_rfl (hout _)

end Procedural.Primitive

/-! ### Both catalogs -/

/-- In both languages the primitive called `name` makes of the numbers `a` and `b` a result of
which `Q` holds, and it writes nothing. -/
def Yields (name : String) (a b : Number) (Q : Except Error Number → Prop) : Prop :=
  ∃ p q result, Procedural.Primitive.ofName? name = some p ∧
    Functional.Primitive.ofName? name = some q ∧ Q result ∧
    ∀ out, p.run [a, b] out = .ofExcept result out ∧
      q.run [.number a, .number b] out = .ofExcept (result.map .number) out

/-- What arithmetic comes to in one language it comes to in the other. -/
theorem Procedural.Primitive.yields (p : Primitive) {a b : Number} {result : Except Error Number}
    {Q : Except Error Number → Prop} (hanswer : ∀ n v, p.SameAnswer n v → v = .number n)
    (hrun : ∀ out, p.run [a, b] out = .ofExcept result out) (hQ : Q result) :
    Yields p.name a b Q := by
  refine ⟨p, p.counterpart, result, p.ofName?_name, p.ofName?_counterpart, hQ, fun out => ?_⟩
  refine ⟨hrun out, ?_⟩
  have heffect : p.SameEffect (p.run [a, b] out)
      (p.counterpart.run [.number a, .number b] out) := p.run_counterpart [a, b] out
  rw [hrun] at heffect
  generalize p.counterpart.run _ out = o at heffect ⊢
  cases result with
  | ok n =>
    cases heffect with
    | value hv =>
      rw [hanswer n _ hv]
      rfl
  | error e =>
    cases heffect with
    | fault => rfl

/-- **Arithmetic is exact and the catalogs agree.**  In both languages sums, differences and
products are those of the integers, or overflow exactly if these do not have 32 bits.
Division fails exactly for the divisor zero, overflows exactly if the least number is divided
by -1, and otherwise rounds toward zero.

Each primitive of the procedural language has one of the same name in the functional
language.  Applied to the same numbers, however many, and writing to the same channel, they
fail with the same error or their answers say the same, and they have written the same.  So
do calls of them, which leave the same consoles. -/
theorem arithmetic_is_exact_and_catalogs_agree :
    (∀ a b : Number,
      Yields "+" a b (IsExact (a.val + b.val)) ∧
      Yields "-" a b (IsExact (a.val - b.val)) ∧
      Yields "*" a b (IsExact (a.val * b.val)) ∧
      Yields "/" a b (IsDivided a.val b.val)) ∧
    ∀ name p, Procedural.Primitive.ofName? name = some p →
      ∃ q, Functional.Primitive.ofName? name = some q ∧ ∀ args : List Number,
        (∀ out, p.SameEffect (p.run args out) (q.run (args.map .number) out)) ∧
        ∀ (call : Procedural.Exp) (call' : Functional.Exp) (m : Procedural.State)
          (m' : Functional.State), call.text = call'.text → m.console = m'.console →
          Agree (fun s s' => s.console = s'.console) p.SameAnswer
            (Procedural.applyPrimitive p args call m)
            (Functional.applyPrimitive q (args.map .number) call' m') := by
  refine ⟨fun a b => ⟨?_, ?_, ?_, ?_⟩, fun name p hp => ?_⟩
  · exact Procedural.Primitive.add.yields (fun _ _ h => h) (fun _ => rfl) (isExact_inRange _)
  · exact Procedural.Primitive.sub.yields (fun _ _ h => h) (fun _ => rfl) (isExact_inRange _)
  · exact Procedural.Primitive.mul.yields (fun _ _ h => h) (fun _ => rfl) (isExact_inRange _)
  · exact Procedural.Primitive.div.yields (fun _ _ h => h) (fun _ => rfl) (isDivided_div a b)
  · obtain rfl := Procedural.Primitive.name_of_ofName? hp
    refine ⟨p.counterpart, p.ofName?_counterpart, fun args => ⟨p.run_counterpart args, ?_⟩⟩
    exact fun call call' m m' hcall hconsole => p.agree_applyPrimitive args hcall hconsole

/-- The least number divided by -1: an overflow in both languages, and the calls agree. -/
theorem arithmetic_is_exact_and_catalogs_agree_least :
    let least : Number := ⟨-2 ^ 31, by decide, by decide⟩
    let minusOne : Number := ⟨-1, by decide, by decide⟩
    let call : Procedural.Exp := .call "/" [.literal least, .literal minusOne]
    let call' : Functional.Exp :=
      .apply (.var "/") [.literal (.number least), .literal (.number minusOne)]
    Yields "/" least minusOne (· = .error (.overflow none)) ∧
      (Procedural.Primitive.ofName? "/" = some .div ∧ call.text = call'.text) ∧
      ∃ q, Functional.Primitive.ofName? "/" = some q ∧
        Agree (fun s s' => s.console = s'.console) Procedural.Primitive.div.SameAnswer
          (Procedural.applyPrimitive .div [least, minusOne] call (.initial .empty))
          (Functional.applyPrimitive q [.number least, .number minusOne] call'
            (.initial .empty)) := by
  intro least minusOne call call'
  have hname : Procedural.Primitive.ofName? "/" = some .div := rfl
  have hcall : call.text = call'.text := by decide +kernel
  obtain ⟨harithmetic, hcatalogs⟩ := arithmetic_is_exact_and_catalogs_agree
  refine ⟨?_, ⟨hname, hcall⟩, ?_⟩
  · obtain ⟨p, q, result, hp, hq, hdivided, hrun⟩ := (harithmetic least minusOne).2.2.2
    exact ⟨p, q, result, hp, hq, hdivided.overflow_iff.2 ⟨rfl, rfl⟩, hrun⟩
  · obtain ⟨q, hq, hagree⟩ := hcatalogs "/" .div hname
    exact ⟨q, hq, (hagree [least, minusOne]).2 call call' _ _ hcall rfl⟩

end Primer
