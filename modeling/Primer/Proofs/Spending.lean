/-
Primer/Proofs/Spending.lean

Computations that spend the trace count.

A machine shows a trace count if its memory does, in whatever sense `T` gives to this,
and the diagnostic channel can be written to (`Machine.Shows`).  A computation that
makes the calls `cs` and begins where the count is `n` ends where what remains of `n`
after that many calls is shown, and has written the lines of the trace of `cs` and
nothing else (`Outcome.Spends`).  This is carried through sequences, loops and calls
under the trace.
-/
import Primer.Proofs.Calls

namespace Primer

open Trace (Line)

/-! ### What remains of a count -/

/-- What remains of a trace count after `k` calls: each uses up one, as long as the count
is positive. -/
def Trace.remaining (n : Number) (k : Nat) : Number where
  val := if n.val ≤ 0 then n.val else max 0 (n.val - k)
  low := by
    have := n.low
    split <;> omega
  high := by
    have := n.high
    split <;> omega

namespace Trace

variable (n : Number) (j k : Nat)

theorem val_remaining : (remaining n k).val = if n.val ≤ 0 then n.val else max 0 (n.val - k) := rfl

theorem remaining_zero : remaining n 0 = n := by
  refine Number.eq_of_val_eq ?_
  rw [val_remaining]
  split <;> omega

theorem remaining_remaining : remaining (remaining n j) k = remaining n (j + k) := by
  refine Number.eq_of_val_eq ?_
  simp only [val_remaining]
  omega

theorem remaining_of_nonpos {n : Number} (h : n.val ≤ 0) : remaining n k = n := by
  refine Number.eq_of_val_eq ?_
  rw [val_remaining, if_pos h]

theorem pred_eq_remaining {n : Number} (h : 0 < n.val) : n.pred h = remaining n 1 := by
  refine Number.eq_of_val_eq ?_
  simp only [val_remaining, Number.pred]
  omega

theorem toNat_remaining : (remaining n k).val.toNat = n.val.toNat - k := by
  rw [val_remaining]
  split <;> omega

end Trace

/-! ### States -/

variable {μ α β ι : Type}

/-- The machine shows the trace count `n`, and its trace can be written. -/
structure Machine.Shows (T : Number → μ → Prop) (n : Number) (m : Machine μ) : Prop where
  memory : T n m.memory
  writable : m.console.diag.Open

/-- From where `n` was the count, `written` was on the diagnostic channel and `indent` was
the indentation, the calls `cs` lead to the machine `m`. -/
structure Machine.Spent (T : Number → μ → Prop) (n : Number) (cs : Calls) (written : String)
    (indent : Nat) (m : Machine μ) : Prop where
  shown : m.Shows T (Trace.remaining n cs.count)
  text : m.console.diag.text = written ++ Line.textOf (cs.lines n.val.toNat indent)

namespace Machine

variable {T : Number → μ → Prop} {n : Number} {cs ds : Calls} {written : String} {indent : Nat}
  {m s : Machine μ}

/-- Without a call nothing is spent and nothing is written. -/
theorem Spent.nil (hm : m.Shows T n) : m.Spent T n .nil m.console.diag.text indent := by
  refine ⟨?_, ?_⟩
  · rw [Calls.count, Trace.remaining_zero]
    exact hm
  · rw [Calls.lines, Line.textOf, String.append_empty]

/-- Calls after calls. -/
theorem Spent.append (hs : s.Spent T n cs written indent)
    (hm : m.Spent T (Trace.remaining n cs.count) ds s.console.diag.text indent) :
    m.Spent T n (cs ++ ds) written indent := by
  refine ⟨?_, ?_⟩
  · rw [Calls.count_append, ← Trace.remaining_remaining]
    exact hm.shown
  · rw [hm.text, hs.text, Trace.toNat_remaining, Calls.lines_append, Line.textOf_append,
      String.append_assoc]

end Machine

/-! ### Computations -/

namespace Outcome

/-- From where `n` was the count, `written` was on the diagnostic channel and `indent` was
the indentation, a computation makes the calls `cs`.  If it ended it did so at the
indentation where it began, and if it has a value, it is one with `V`. -/
inductive Spends (T : Number → μ → Prop) (V : α → Prop) (n : Number) (cs : Calls)
    (written : String) (indent : Nat) : Outcome (Machine μ) α → Prop
  | value {a : α} {m : Machine μ} : m.Spent T n cs written indent → m.indent = indent → V a →
      Spends T V n cs written indent (.value a m)
  | fault {e : Error} {m : Machine μ} : m.Spent T n cs written indent → m.indent = indent →
      Spends T V n cs written indent (.fault e m)
  | unfinished {m : Machine μ} : m.Spent T n cs written indent →
      Spends T V n cs written indent (.unfinished m)

/-- A computation that makes the calls `cs`, begun at the machine `m`. -/
abbrev SpendsFrom (T : Number → μ → Prop) (V : α → Prop) (n : Number) (cs : Calls)
    (m : Machine μ) : Outcome (Machine μ) α → Prop :=
  Spends T V n cs m.console.diag.text m.indent

variable {T : Number → μ → Prop} {V : α → Prop} {U : β → Prop} {n : Number} {cs : Calls}
  {written : String} {indent : Nat} {m : Machine μ}

namespace Spends

theorem imp {T' : Number → μ → Prop} {n' : Number} {cs' : Calls} {written' : String}
    {o : Outcome (Machine μ) α} (h : Spends T V n cs written indent o)
    (hspent : ∀ s : Machine μ, s.Spent T n cs written indent → s.Spent T' n' cs' written' indent) :
    Spends T' V n' cs' written' indent o := by
  cases h with
  | value hs h ha => exact .value (hspent _ hs) h ha
  | fault hs h => exact .fault (hspent _ hs) h
  | unfinished hs => exact .unfinished (hspent _ hs)

theorem spent {o : Outcome (Machine μ) α} (h : Spends T V n cs written indent o) :
    o.state.Spent T n cs written indent := by
  cases h with
  | value h _ _ => exact h
  | fault h _ => exact h
  | unfinished h => exact h

/-- The value of something that makes no call and writes no trace. -/
theorem quiet {a : α} (hm : m.Shows T n) (ha : V a) : SpendsFrom T V n .nil m (.value a m) :=
  .value (.nil hm) rfl ha

theorem quietFault {e : Error} (hm : m.Shows T n) :
    SpendsFrom T V n .nil m (.fault e m) :=
  .fault (.nil hm) rfl

/-- One step after another. -/
theorem andThen {o : Outcome (Machine μ) α} {f : α → Machine μ → Outcome (Machine μ) β}
    {calls : α → Machine μ → Calls} (h : Spends T V n cs written indent o)
    (hf : ∀ a k s, V a → s.Shows T k → SpendsFrom T U k (calls a s) s (f a s)) :
    Spends T U n (cs ++ o.callsThen calls) written indent (o.andThen f) := by
  cases h with
  | @value a s hs hindent ha =>
    have hnext := hf a _ s ha hs.shown
    rw [SpendsFrom, hindent] at hnext
    exact hnext.imp fun t ht => hs.append ht
  | fault hs hindent =>
    rw [callsThen, Calls.append_nil]
    exact .fault hs hindent
  | unfinished hs =>
    rw [callsThen, Calls.append_nil]
    exact .unfinished hs

/-- A last step that makes no call. -/
theorem andQuietly {o : Outcome (Machine μ) α} {f : α → Machine μ → Outcome (Machine μ) β}
    (h : Spends T V n cs written indent o)
    (hf : ∀ a k s, V a → s.Shows T k → SpendsFrom T U k .nil s (f a s)) :
    Spends T U n cs written indent (o.andThen f) := by
  have hnil : cs ++ o.callsThen (fun _ _ => .nil) = cs := by
    cases o <;> exact Calls.append_nil cs
  rw [← hnil]
  exact h.andThen hf

theorem mapState {T' : Number → μ → Prop} {f : Machine μ → Machine μ}
    {o : Outcome (Machine μ) α} (h : Spends T V n cs written indent o)
    (hmemory : ∀ k s, T k s.memory → T' k (f s).memory)
    (hconsole : ∀ s, (f s).console = s.console) (hindent : ∀ s, (f s).indent = s.indent) :
    Spends T' V n cs written indent (o.mapState f) := by
  have hspent : ∀ s, s.Spent T n cs written indent → (f s).Spent T' n cs written indent := by
    intro s hs
    refine ⟨⟨hmemory _ s hs.shown.memory, ?_⟩, ?_⟩
    · rw [hconsole]
      exact hs.shown.writable
    · rw [hconsole, hs.text]
  cases h with
  | value hs h ha => exact .value (hspent _ hs) ((hindent _).trans h) ha
  | fault hs h => exact .fault (hspent _ hs) ((hindent _).trans h)
  | unfinished hs => exact .unfinished (hspent _ hs)

theorem evalEach {f : ι → Machine μ → Outcome (Machine μ) α} {calls : ι → Machine μ → Calls}
    {as : List ι} (hm : m.Shows T n)
    (hf : ∀ a ∈ as, ∀ k s, s.Shows T k → SpendsFrom T V k (calls a s) s (f a s)) :
    SpendsFrom T (fun bs => ∀ b ∈ bs, V b) n (callsEach f calls as m) m
      (Primer.evalEach f as m) := by
  induction as generalizing n m with
  | nil => exact .quiet hm (List.forall_mem_nil V)
  | cons a as ih =>
    refine (hf a List.mem_cons_self n m hm).andThen fun b k s hb hs => ?_
    refine (ih hs fun a' ha' => hf a' (List.mem_cons_of_mem a ha')).andQuietly ?_
    intro bs k s hbs hs
    exact .quiet hs (List.forall_mem_cons.2 ⟨hb, hbs⟩)

theorem evalLast {f : ι → Machine μ → Outcome (Machine μ) α} {calls : ι → Machine μ → Calls}
    {as : List ι} {last : α} (hm : m.Shows T n) (hlast : V last)
    (hf : ∀ a ∈ as, ∀ k s, s.Shows T k → SpendsFrom T V k (calls a s) s (f a s)) :
    SpendsFrom T V n (callsEach f calls as m) m (Primer.evalLast f last as m) := by
  induction as generalizing n m last with
  | nil => exact .quiet hm hlast
  | cons a as ih =>
    refine (hf a List.mem_cons_self n m hm).andThen fun b k s hb hs => ?_
    exact ih hs hb fun a' ha' => hf a' (List.mem_cons_of_mem a ha')

theorem evalWhile {isTrue : α → Bool} {done : α} {test body : Machine μ → Outcome (Machine μ) α}
    {inTest inBody : Machine μ → Calls} (hdone : V done)
    (htest : ∀ k s, s.Shows T k → SpendsFrom T V k (inTest s) s (test s))
    (hbody : ∀ k s, s.Shows T k → SpendsFrom T V k (inBody s) s (body s)) (turns : Nat)
    (hm : m.Shows T n) :
    SpendsFrom T V n (callsWhile isTrue test body inTest inBody turns m) m
      (Primer.evalWhile isTrue done test body turns m) := by
  induction turns generalizing n m with
  | zero => exact .unfinished (.nil hm)
  | succ turns ih =>
    refine (htest n m hm).andThen fun a k s _ hs => ?_
    cases isTrue a with
    | true => exact (hbody k s hs).andThen fun _ k s _ hs => ih hs
    | false => exact .quiet hs hdone

end Spends

end Outcome

/-! ### Calls under the trace -/

namespace Trace

open Outcome

variable {T : Number → μ → Prop} {V : α → Prop} {n : Number} {inner : Calls} {written : String}
  {indent : Nat}

/-- A call that is not traced, for want of a count, and the calls within it. -/
theorem spends_untraced {call : String} {result : Option String} {o : Outcome (Machine μ) α}
    (hn : n.val ≤ 0) (h : Spends T V n inner written indent o) :
    Spends T V n (.call call result inner .nil) written indent o := by
  refine h.imp fun s hs => ⟨?_, ?_⟩
  · rw [remaining_of_nonpos _ hn, ← remaining_of_nonpos inner.count hn]
    exact hs.shown
  · have htext := hs.text
    rw [Int.toNat_of_nonpos hn, Calls.lines_zero] at htext ⊢
    exact htext

/-- The lines of a trace as they are written. -/
theorem text_opening (indent : Nat) (call : String) :
    (Line.opening indent call).text = openingLine indent call ++ "\n" := by
  simp [Line.text, openingLine, String.append_assoc]

theorem text_notice (indent : Nat) : (Line.notice indent).text = lastLine indent ++ "\n" := by
  simp [Line.text, lastLine, String.append_assoc]

theorem text_closing (indent : Nat) (call result : String) :
    (Line.closing indent call result).text = closingLine indent call result ++ "\n" := rfl

/-- Where the diagnostic channel takes what is written, so does the machine. -/
theorem diagLine_of_open {m : Machine μ} (h : m.console.diag.Open) (line : Unit → String) :
    m.diagLine line = .value () (m.withDiag (m.console.diag.wrote (line () ++ "\n"))) := by
  rw [Machine.diagLine, Channel.writeLine, Channel.Open.writeText h]
  rfl

/-- A call that can be entered under the trace is entered, with its opening lines. -/
theorem enter_of_open {spend : Number → Machine μ → Machine μ} (call : Unit → String)
    {m : Machine μ} (hopen : m.console.diag.Open)
    (hconsole : ∀ k s, (spend k s).console = s.console) (hn : 0 < n.val) :
    ∃ s t, enter (some n) spend call m = .value true s ∧ s.indent = m.indent + 2 ∧
      s.memory = (spend (n.pred hn) t).memory ∧ t.memory = m.memory ∧ s.console.diag.Open ∧
      s.console.diag.text = m.console.diag.text ++
        Line.textOf (Line.opens (n.pred hn).val.toNat m.indent (call ())) := by
  have hnonneg : 0 ≤ (n.pred hn).val := Int.le_sub_one_of_lt hn
  have hzero : (n.pred hn).val.toNat = 0 ↔ (n.pred hn).val = 0 := by omega
  let opened := m.withDiag (m.console.diag.wrote (openingLine m.indent (call ()) ++ "\n"))
  have hopened : (spend (n.pred hn) opened).console.diag
      = m.console.diag.wrote (openingLine m.indent (call ()) ++ "\n") := by
    rw [hconsole]
    rfl
  have hopen' : (spend (n.pred hn) opened).console.diag.Open := hopened ▸ hopen.wrote _
  simp only [enter, hn, dite_true, diagLine_of_open hopen, andThen_value, noteLast]
  split
  · next hlast =>
    rw [diagLine_of_open hopen']
    refine ⟨_, opened, rfl, rfl, rfl, rfl, hopen'.wrote _, ?_⟩
    show (Machine.console (spend (n.pred hn) opened)).diag.text ++ _ = _
    rw [hopened, Line.opens, if_pos (hzero.2 hlast)]
    simp only [Channel.wrote, Line.textOf, text_opening, text_notice, String.append_assoc,
      String.append_empty]
  · next hlast =>
    refine ⟨_, opened, rfl, rfl, rfl, rfl, hopen', ?_⟩
    show (Machine.console (spend (n.pred hn) opened)).diag.text = _
    rw [hopened, Line.opens, if_neg (hlast ∘ hzero.1)]
    simp only [Channel.wrote, Line.textOf, text_opening, String.append_empty]

/-- A call that is traced, and the calls within it. -/
theorem spent_traced {call : String} {result : Option String} {m s : Machine μ} (hn : 0 < n.val)
    (hs : s.Spent T (n.pred hn) inner
      (written ++ Line.textOf (Line.opens (n.pred hn).val.toNat indent call)) (indent + 2))
    (hmemory : m.memory = s.memory)
    (hdiag : m.console.diag.Open ∧ m.console.diag.text
      = s.console.diag.text ++ Line.textOf (Line.closes indent call result)) :
    m.Spent T n (.call call result inner .nil) written indent := by
  obtain ⟨left, hleft⟩ : ∃ left, n.val.toNat = left + 1 := ⟨n.val.toNat - 1, by omega⟩
  have hpred : (n.pred hn).val.toNat = left := by
    rw [pred_eq_remaining, toNat_remaining, hleft, Nat.add_sub_cancel]
  refine ⟨⟨?_, hdiag.1⟩, ?_⟩
  · have hshown := hs.shown.memory
    rw [pred_eq_remaining, remaining_remaining] at hshown
    rw [hmemory, Calls.count, Calls.count, Nat.add_zero]
    exact hshown
  · rw [hdiag.2, hs.text, hpred, hleft, Calls.lines, Calls.lines, List.append_nil, Line.around,
      Line.textOf_append, Line.textOf_append]
    simp only [String.append_assoc]

/-- A traced call that was entered and now is left. -/
theorem spends_leaveCall {call : String} {render : α → String} {o : Outcome (Machine μ) α}
    (hn : 0 < n.val)
    (h : Spends T V (n.pred hn) inner
      (written ++ Line.textOf (Line.opens (n.pred hn).val.toNat indent call)) (indent + 2) o) :
    Spends T V n (.call call (o.rendered render) inner .nil) written indent
      (leaveCall call render o) := by
  have hout : ∀ m : Machine μ, m.indent = indent + 2 → outdent m.indent = indent := by
    intro m hm
    rw [hm, outdent, Nat.add_sub_cancel]
  cases h with
  | @value a s hs hindent ha =>
    have hopen : s.console.diag.Open := hs.shown.writable
    rw [leaveCall, diagLine_of_open (by exact hopen)]
    refine .value (spent_traced hn hs rfl ⟨hopen.wrote _, ?_⟩) (hout s hindent) ha
    simp only [Machine.withDiag, Channel.wrote, Line.closes, rendered, Option.map_some,
      Option.toList_some, Line.textOf, text_closing, hout s hindent, String.append_empty]
  | @fault e s hs hindent =>
    refine .fault (spent_traced hn hs rfl ⟨hs.shown.writable, ?_⟩) (hout s hindent)
    exact String.append_empty.symm
  | @unfinished s hs =>
    refine .unfinished (spent_traced hn hs rfl ⟨hs.shown.writable, ?_⟩)
    exact String.append_empty.symm

/-- **A call under the trace** spends one of the count, if there is any, for itself, and
what the calls within it spend. -/
theorem spends_around {count : Option Number} {spend : Number → Machine μ → Machine μ}
    {call : Unit → String} {render : α → String} {run : Machine μ → Outcome (Machine μ) α}
    {inner : Machine μ → Calls} {m : Machine μ} (hm : m.Shows T n) (hcount : count = some n)
    (hmemory : ∀ k t, t.memory = m.memory → T k (spend k t).memory)
    (hconsole : ∀ k s, (spend k s).console = s.console)
    (hrun : ∀ k s, s.Shows T k → SpendsFrom T V k (inner s) s (run s)) :
    SpendsFrom T V n (callsAround count spend call render run inner m) m
      (around count spend call render run m) := by
  unfold callsAround around
  subst hcount
  by_cases hn : 0 < n.val
  · obtain ⟨s, t, henter, hindent, hspent, ht, hopen, htext⟩ :=
      enter_of_open call hm.writable hconsole hn
    have hshows : s.Shows T (n.pred hn) := ⟨hspent ▸ hmemory _ t ht, hopen⟩
    have hbody := hrun _ s hshows
    rw [SpendsFrom, hindent, htext] at hbody
    rw [henter]
    exact spends_leaveCall hn hbody
  · simp only [enter, hn, dite_false]
    exact spends_untraced (Int.not_lt.1 hn) (hrun n m hm)

end Trace

end Primer
