/-
Primer/Proofs/Calls.lean

The calls of a computation, and what a trace of them looks like.

`Calls` are calls in the order in which they are entered, each with the calls that are
made in the course of it.  `Calls.lines` says which lines their trace has when it may
still use up `n` of the count: the first `n` calls are traced.  A traced call has its
opening line, then the lines of the calls within it, two further in, and if it returned
a value, a closing line.

What `lines` says in one recursion is taken apart here: which calls have opening lines
and where these stand (`openings_lines`), how many notices and closing lines there are
(`notices_lines`, `closings_lines`), and what stands between the opening and the closing
line of one call (`exists_lines_eq_of_listed`).

The second part reads off the calls of a sequence or of a loop, and of one call under
the trace, from the ends of its steps.
-/
import Primer.Trace

namespace Primer

/-! ### Lines -/

/-- A line of a trace. -/
inductive Trace.Line where
  /-- before a call -/
  | opening (indent : Nat) (call : String)
  /-- after an opening line that used up the count -/
  | notice (indent : Nat)
  /-- after a call that returned a value -/
  | closing (indent : Nat) (call result : String)

namespace Trace.Line

def text : Line → String
  | opening indent call => padding indent ++ call ++ " => ...\n"
  | notice indent => padding indent ++ "... &trace goes to 0 ...\n"
  | closing indent call result => padding indent ++ call ++ " => " ++ result ++ "\n"

def textOf : List Line → String
  | [] => ""
  | line :: lines => line.text ++ textOf lines

theorem textOf_append (lines more : List Line) :
    textOf (lines ++ more) = textOf lines ++ textOf more := by
  induction lines with
  | nil => simp [textOf]
  | cons line lines ih => rw [List.cons_append, textOf, textOf, ih, String.append_assoc]

/-- The indentation and the call of an opening line. -/
def opening? : Line → Option (Nat × String)
  | opening indent call => some (indent, call)
  | _ => none

def isNotice : Line → Bool
  | notice _ => true
  | _ => false

def isClosing : Line → Bool
  | closing .. => true
  | _ => false

/-- What is written before a traced call that leaves so much of the count. -/
def opens (left indent : Nat) (call : String) : List Line :=
  opening indent call :: if left = 0 then [notice indent] else []

/-- What is written after a traced call. -/
def closes (indent : Nat) (call : String) (result : Option String) : List Line :=
  (result.map (closing indent call)).toList

/-- The lines of a traced call around those of the calls within it. -/
def around (left indent : Nat) (call : String) (result : Option String) (inner : List Line) :
    List Line :=
  opens left indent call ++ inner ++ closes indent call result

section

variable (left indent : Nat) (call : String) (result : Option String) (inner : List Line)

theorem openings_opens : (opens left indent call).filterMap opening? = [(indent, call)] := by
  unfold opens
  split <;> rfl

theorem openings_around :
    (around left indent call result inner).filterMap opening?
      = (indent, call) :: inner.filterMap opening? := by
  have hcloses : (closes indent call result).filterMap opening? = [] := by
    cases result <;> rfl
  rw [around, List.filterMap_append, List.filterMap_append, openings_opens, hcloses,
    List.append_nil, List.singleton_append]

theorem notices_around :
    (around left indent call result inner).countP isNotice
      = (if left = 0 then 1 else 0) + inner.countP isNotice := by
  have hopens : (opens left indent call).countP isNotice = if left = 0 then 1 else 0 := by
    unfold opens
    split <;> rfl
  have hcloses : (closes indent call result).countP isNotice = 0 := by
    cases result <;> rfl
  rw [around, List.countP_append, List.countP_append, hopens, hcloses, Nat.add_zero]

theorem closings_around :
    (around left indent call result inner).countP isClosing
      = inner.countP isClosing + if result.isSome then 1 else 0 := by
  have hopens : (opens left indent call).countP isClosing = 0 := by
    unfold opens
    split <;> rfl
  have hcloses : (closes indent call result).countP isClosing
      = if result.isSome then 1 else 0 := by
    cases result <;> rfl
  rw [around, List.countP_append, List.countP_append, hopens, hcloses, Nat.zero_add]

end

end Trace.Line

/-! ### Calls -/

open Trace (Line)

/-- Calls in the order in which they are entered: the first one, with its result if it
returned a value and with the calls in the course of it, and the calls after it. -/
inductive Calls where
  | nil
  | call (text : String) (result : Option String) (inner later : Calls)

/-- One of some calls, with the number of calls that it is within. -/
structure Calls.Node where
  depth : Nat
  text : String
  result : Option String
  inner : Calls

namespace Calls

protected def append : Calls → Calls → Calls
  | nil, more => more
  | call text result inner later, more => call text result inner (later.append more)

instance : Append Calls := ⟨Calls.append⟩

theorem nil_append (cs : Calls) : nil ++ cs = cs := rfl

theorem call_append (text : String) (result : Option String) (inner later cs : Calls) :
    call text result inner later ++ cs = call text result inner (later ++ cs) := rfl

theorem append_nil (cs : Calls) : cs ++ nil = cs := by
  induction cs with
  | nil => rfl
  | call text result inner later _ ih => rw [call_append, ih]

/-- How many calls there are. -/
def count : Calls → Nat
  | nil => 0
  | call _ _ inner later => 1 + inner.count + later.count

/-- All calls, in the order in which they are entered. -/
def listed (depth : Nat) : Calls → List Node
  | nil => []
  | call text result inner later =>
      ⟨depth, text, result, inner⟩ :: inner.listed (depth + 1) ++ later.listed depth

/-- The trace of calls when it begins at an indentation and `n` of the count is left. -/
def lines (n indent : Nat) : Calls → List Line
  | nil => []
  | call text result inner later =>
      match n with
      | 0 => []
      | left + 1 =>
          Line.around left indent text result (inner.lines left (indent + 2)) ++
            later.lines (left - inner.count) indent

theorem count_append (cs ds : Calls) : (cs ++ ds).count = cs.count + ds.count := by
  induction cs with
  | nil => rw [nil_append, count, Nat.zero_add]
  | call text result inner later _ ih =>
    rw [call_append, count, count, ih]
    omega

theorem length_listed (depth : Nat) (cs : Calls) : (cs.listed depth).length = cs.count := by
  induction cs generalizing depth with
  | nil => rfl
  | call text result inner later ihInner ihLater =>
    simp only [listed, count, List.cons_append, List.length_cons, List.length_append, ihInner,
      ihLater]
    omega

/-- With nothing left of the count there is no trace. -/
theorem lines_zero (indent : Nat) (cs : Calls) : cs.lines 0 indent = [] := by
  cases cs <;> rfl

/-- What the first calls have used up is not there for later ones. -/
theorem lines_append (n indent : Nat) (cs ds : Calls) :
    (cs ++ ds).lines n indent = cs.lines n indent ++ ds.lines (n - cs.count) indent := by
  induction cs generalizing n with
  | nil => rfl
  | call text result inner later _ ih =>
    cases n with
    | zero => rw [Nat.zero_sub, lines_zero, lines_zero, lines_zero, List.append_nil]
    | succ left =>
      have hleft : left + 1 - (1 + inner.count + later.count)
          = left - inner.count - later.count := by omega
      simp only [call_append, lines, count, ih, List.append_assoc, hleft]

/-! ### The lines of a trace, kind by kind -/

/-- The opening lines are those of the first `n` calls, in order, each two further in for
every call that it is within. -/
theorem openings_lines (n indent depth : Nat) (cs : Calls) :
    (cs.lines n (indent + 2 * depth)).filterMap Line.opening?
      = ((cs.listed depth).take n).map fun c => (indent + 2 * c.depth, c.text) := by
  induction cs generalizing n depth with
  | nil => simp [lines, listed]
  | call text result inner later ihInner ihLater =>
    cases n with
    | zero => simp [lines]
    | succ left =>
      have hinner := ihInner left (depth + 1)
      rw [show indent + 2 * (depth + 1) = indent + 2 * depth + 2 by omega] at hinner
      simp only [lines, List.filterMap_append, Line.openings_around, hinner, ihLater, listed,
        List.cons_append, List.take_succ_cons, List.take_append, length_listed, List.map_cons,
        List.map_append]

/-- The notice is written once if the count is used up, and otherwise not at all. -/
theorem notices_lines (n indent : Nat) (cs : Calls) :
    (cs.lines n indent).countP Line.isNotice = if 0 < n ∧ n ≤ cs.count then 1 else 0 := by
  induction cs generalizing n indent with
  | nil =>
    have h : ¬ (0 < n ∧ n ≤ 0) := by omega
    exact (if_neg h).symm
  | call text result inner later ihInner ihLater =>
    cases n with
    | zero => rfl
    | succ left =>
      -- it is this call that uses up the count, or one within it, or a later one
      simp only [lines, List.countP_append, Line.notices_around, ihInner, ihLater, count]
      grind

/-- There are as many closing lines as traced calls that returned a value. -/
theorem closings_lines (n indent depth : Nat) (cs : Calls) :
    (cs.lines n indent).countP Line.isClosing
      = ((cs.listed depth).take n).countP fun c => c.result.isSome := by
  induction cs generalizing n indent depth with
  | nil => simp [lines, listed]
  | call text result inner later ihInner ihLater =>
    cases n with
    | zero => rfl
    | succ left =>
      simp only [lines, List.countP_append, Line.closings_around, ihInner _ _ (depth + 1),
        ihLater _ _ depth, listed, List.cons_append, List.take_succ_cons, List.take_append,
        length_listed, List.countP_cons]
      omega

/-- The lines of a traced call stand together, with those of the calls within it in between,
after the opening lines of the calls that were entered before. -/
theorem exists_lines_eq_of_listed {n j depth : Nat} {cs : Calls} {c : Node} (indent : Nat)
    (hc : (cs.listed depth)[j]? = some c) (hj : j < n) :
    ∃ before after, (before.filterMap Line.opening?).length = j ∧
      cs.lines n (indent + 2 * depth)
        = before ++ Line.around (n - (j + 1)) (indent + 2 * c.depth) c.text c.result
            (c.inner.lines (n - (j + 1)) (indent + 2 * c.depth + 2)) ++ after := by
  induction cs generalizing n j depth with
  | nil => cases hc
  | call text result inner later ihInner ihLater =>
    obtain ⟨left, rfl⟩ : ∃ left, n = left + 1 := ⟨n - 1, by omega⟩
    cases j with
    | zero =>
      obtain rfl := Option.some.inj hc
      exact ⟨[], _, rfl, rfl⟩
    | succ j =>
      simp only [listed, List.cons_append, List.getElem?_cons_succ] at hc
      have hdeeper : indent + 2 * (depth + 1) = indent + 2 * depth + 2 := by omega
      rcases Nat.lt_or_ge j inner.count with hlt | hge
      · -- the call is one within the first
        rw [List.getElem?_append_left (by rwa [length_listed])] at hc
        obtain ⟨before, after, hbefore, hlines⟩ := ihInner hc (Nat.lt_of_succ_lt_succ hj)
        rw [hdeeper] at hlines
        refine ⟨Line.opens left (indent + 2 * depth) text ++ before,
          after ++ (Line.closes (indent + 2 * depth) text result ++
            later.lines (left - inner.count) (indent + 2 * depth)), ?_, ?_⟩
        · rw [List.filterMap_append, Line.openings_opens, List.length_append, hbefore, Nat.add_comm]
          rfl
        · rw [lines, Line.around, hlines, Nat.succ_sub_succ]
          simp only [List.append_assoc]
      · -- the call is one after the first
        rw [List.getElem?_append_right (by rwa [length_listed]), length_listed] at hc
        obtain ⟨before, after, hbefore, hlines⟩ :=
          ihLater (n := left - inner.count) hc (by omega)
        refine ⟨Line.around left (indent + 2 * depth) text result
            (inner.lines left (indent + 2 * depth + 2)) ++ before, after, ?_, ?_⟩
        · rw [List.filterMap_append, Line.openings_around, ← hdeeper, openings_lines]
          simp [hbefore, length_listed]
          omega
        · rw [lines, hlines, show left + 1 - (j + 1 + 1)
            = left - inner.count - (j - inner.count + 1) by omega]
          simp only [List.append_assoc]

end Calls

/-! ### The calls of a computation -/

section

variable {σ α ι : Type}

/-- The calls of a second step, which is taken if the first one ended in a value. -/
def Outcome.callsThen (o : Outcome σ α) (calls : α → σ → Calls) : Calls :=
  match o with
  | .value a s => calls a s
  | .fault .. => .nil
  | .unfinished _ => .nil

/-- The text of the value, if there is one. -/
def Outcome.rendered (render : α → String) : Outcome σ α → Option String
  | .value a _ => some (render a)
  | _ => none

/-- The calls of something that is done for each of a list. -/
def callsEach (f : ι → σ → Outcome σ α) (calls : ι → σ → Calls) : List ι → σ → Calls
  | [], _ => .nil
  | a :: as, s => calls a s ++ (f a s).callsThen fun _ s => callsEach f calls as s

/-- The calls of a loop, from those of its test and its body. -/
def callsWhile (isTrue : α → Bool) (test body : σ → Outcome σ α) (inTest inBody : σ → Calls) :
    Nat → σ → Calls
  | 0, _ => .nil
  | turns + 1, s =>
      inTest s ++ (test s).callsThen fun a s =>
        if isTrue a then
          inBody s ++ (body s).callsThen fun _ s =>
            callsWhile isTrue test body inTest inBody turns s
        else .nil

end

/-- A call under the trace.  The calls within it are made from the state in which its
body begins; there are none if it could not be entered. -/
def Trace.callsAround {μ α : Type} (count : Option Number)
    (spend : Number → Machine μ → Machine μ) (call : Unit → String) (render : α → String)
    (run : Machine μ → Outcome (Machine μ) α) (inner : Machine μ → Calls) (m : Machine μ) :
    Calls :=
  match enter count spend call m with
  | .value _ m => .call (call ()) ((run m).rendered render) (inner m) .nil
  | _ => .call (call ()) none .nil .nil

end Primer
