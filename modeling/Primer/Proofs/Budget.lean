/-
Primer/Proofs/Budget.lean

The trace count is spent exactly.

Take an expression that leaves the trace count to the trace, in either language, and
let its evaluation make `k` calls.  Whether it ends in a value or in an error, and also
as long as it is unfinished, the count has gone down by one for each call until it came
to zero; and what was written are the lines of a trace of the first so many calls, one
opening line for each, with all else that belongs to a trace in its place
(`trace_count_is_spent_exactly`).
-/
import Primer.Proofs.Functional.Spending
import Primer.Proofs.Procedural.Spending

namespace Primer

open Trace (Line)

/-- The lines are a trace of calls, of which as many are traced as the count `n` allows.

The calls that a traced call is within were entered before it, so they are traced too:
these are the traced calls that are open where its opening line stands. -/
structure Trace.Accounts (n : Int) (indent : Nat) (cs : Calls) (lines : List Line) : Prop where
  openings : ((lines.filterMap Line.opening?).length : Int) = max 0 (min n cs.count)
  /-- the notice that the count is used up -/
  notices : lines.countP Line.isNotice = if 0 < n ∧ n ≤ cs.count then 1 else 0
  /-- an opening line is two further in for each call that is open -/
  indented : lines.filterMap Line.opening?
    = ((cs.listed 0).take n.toNat).map fun c => (indent + 2 * c.depth, c.text)
  closings : lines.countP Line.isClosing
    = ((cs.listed 0).take n.toNat).countP fun c => c.result.isSome
  /-- a traced call has its opening line, after those of the calls before it, then the lines
  of the calls within it, and then, if it returned a value, a closing line -/
  enclosed : ∀ (j : Nat) (c : Calls.Node), (cs.listed 0)[j]? = some c → (j : Int) < n →
    ∃ before after, (before.filterMap Line.opening?).length = j ∧
      lines = before ++ Line.around (n.toNat - (j + 1)) (indent + 2 * c.depth) c.text c.result
        (c.inner.lines (n.toNat - (j + 1)) (indent + 2 * c.depth + 2)) ++ after

theorem Calls.accounts (n : Int) (indent : Nat) (cs : Calls) :
    Trace.Accounts n indent cs (cs.lines n.toNat indent) where
  openings := by
    have hindented : (cs.lines n.toNat indent).filterMap Line.opening? = _ :=
      openings_lines n.toNat indent 0 cs
    rw [hindented, List.length_map, List.length_take, length_listed]
    omega
  notices := by
    have htoNat : (0 < n.toNat ∧ n.toNat ≤ cs.count) ↔ (0 < n ∧ n ≤ cs.count) := by omega
    rw [notices_lines, if_congr htoNat rfl rfl]
  indented := openings_lines n.toNat indent 0 cs
  closings := closings_lines n.toNat indent 0 cs
  enclosed j c hc hj := exists_lines_eq_of_listed indent hc (by omega)

/-- **The trace count is spent exactly.**  Where the count is `n` and the trace can be
written, an expression that leaves the count to the trace is evaluated.  Afterwards the
count is what remains of `n` after the calls that were made, and what was written to the
diagnostic channel is their trace. -/
theorem trace_count_is_spent_exactly (limits : Limits) (left : Nat) (n : Number) :
    (∀ (e : Functional.Exp) (env : Functional.Env) (m : Functional.State),
      Functional.Metered n e env m → m.console.diag.Open →
        let cs := Functional.calls limits left e env m
        let m' := (Functional.eval limits left e env m).state
        m'.global? Trace.countName = some (.number (Trace.remaining n cs.count)) ∧
          ∃ lines, m'.console.diag.text = m.console.diag.text ++ Line.textOf lines ∧
            Trace.Accounts n.val m.indent cs lines) ∧
    (∀ (e : Procedural.Exp) (m : Procedural.State),
      Procedural.Metered n e m → m.console.diag.Open →
        let cs := Procedural.calls limits left e m
        let m' := (Procedural.eval limits left e m).state
        m'.global? Trace.countName = some (Trace.remaining n cs.count) ∧
          ∃ lines, m'.console.diag.text = m.console.diag.text ++ Line.textOf lines ∧
            Trace.Accounts n.val m.indent cs lines) := by
  refine ⟨fun e env m h hw => ?_, fun e m h hw => ?_⟩
  · have hspent := h.spent hw limits left
    exact ⟨(Functional.global?_eq _ _).trans hspent.shown.memory.count, _, hspent.text,
      Calls.accounts _ _ _⟩
  · have hspent := h.spent hw limits left
    exact ⟨hspent.shown.memory.count, _, hspent.text, Calls.accounts _ _ _⟩

/-- With three of the count, a call that returns, and then a call that fails because of a
call of a call within it: the last one is not traced any more. -/
theorem trace_count_is_spent_exactly_failing_call :
    let n : Number := ⟨3, by decide, by decide⟩
    let e : Functional.Exp :=
      .block [.apply (.var "h") [.literal (.bool true)], .apply (.var "f") [.literal (.bool true)]]
    let frame : Functional.Frame :=
      [("h", .closure ⟨0, ["x"], .var "x"⟩ .globals),
        ("f", .closure ⟨1, ["x"], .apply (.var "g") [.var "x"]⟩ .globals),
        ("g", .closure ⟨2, ["x"], .apply (.var "car") [.var "x"]⟩ .globals),
        ("car", .primitive .car), (Trace.countName, .number n)]
    let m : Functional.State := ⟨⟨⟨#[frame]⟩, 3⟩, .empty, 0⟩
    let e' : Procedural.Exp := .block [.call "h" [.literal .one], .call "f" [.literal .one]]
    let m' : Procedural.State :=
      ⟨⟨.none, [(Trace.countName, n)],
        [("h", .procedure ⟨["x"], [], .var "x"⟩),
          ("f", .procedure ⟨["x"], [], .call "g" [.var "x"]⟩),
          ("g", .procedure ⟨["x"], [], .call "/" [.var "x", .literal .zero]⟩),
          ("/", .primitive .div)]⟩, .empty, 0⟩
    (Functional.Metered n e .globals m ∧ m.console.diag.Open ∧
      let cs := Functional.calls ⟨9, 0⟩ 9 e .globals m
      let after := (Functional.eval ⟨9, 0⟩ 9 e .globals m).state
      cs.count = 4 ∧
        after.console.diag.text = "(h #t) => ...\n(h #t) => #t\n" ++
          "(f #t) => ...\n  (g #t) => ...\n  ... &trace goes to 0 ...\n" ∧
        after.global? Trace.countName = some (.number (Trace.remaining n cs.count)) ∧
          ∃ lines, after.console.diag.text = m.console.diag.text ++ Line.textOf lines ∧
            Trace.Accounts n.val m.indent cs lines) ∧
    (Procedural.Metered n e' m' ∧ m'.console.diag.Open ∧
      let cs := Procedural.calls ⟨9, 0⟩ 9 e' m'
      let after := (Procedural.eval ⟨9, 0⟩ 9 e' m').state
      cs.count = 4 ∧
        after.console.diag.text = "(h 1) => ...\n(h 1) => 1\n" ++
          "(f 1) => ...\n  (g 1) => ...\n  ... &trace goes to 0 ...\n" ∧
        after.global? Trace.countName = some (Trace.remaining n cs.count) ∧
        ∃ lines, after.console.diag.text = m'.console.diag.text ++ Line.textOf lines ∧
          Trace.Accounts n.val m'.indent cs lines) := by
  intro n e frame m e' m'
  have hclosure : ∀ b ∈ frame, ∀ c ∈ b.2.closures, Trace.countName ∉ c.1.toExp.names ∧
      c.2 = .globals := by
    decide
  -- the only frame is the global one
  have hreach : ∀ id, m.memory.store.Reachable [0] id → id = 0 := by
    intro id hid
    induction hid with
    | root h => exact List.mem_singleton.1 h
    | captured _ hb hc hid' ih =>
      subst ih
      rw [(hclosure _ hb _ hc).2] at hid'
      exact List.mem_singleton.1 hid'
  have hframe : ∀ id, id ≠ 0 → m.memory.store.frame id = [] := by
    intro id hid
    exact Functional.Store.frame_of_size_le _ (Nat.one_le_iff_ne_zero.2 hid)
  have hm : Functional.Metered n e .globals m := by
    refine ⟨⟨by decide, fun id hid b hb c hc => ?_⟩, rfl, fun id hid => ?_,
      List.mem_singleton_self 0, fun id hid b hb c hc => ?_⟩
    · obtain rfl := hreach id hid
      exact (hclosure b hb c hc).1
    · rw [hframe id hid]
      rfl
    · obtain rfl := hreach id hid
      rw [(hclosure b hb c hc).2]
      exact List.mem_singleton_self 0
  have hm' : Procedural.Metered n e' m' := by
    refine ⟨by decide, fun f p _ hp => ?_, rfl, ⟨rfl, rfl⟩⟩
    have hfunctions : ∀ b ∈ m'.memory.functions, ∀ p, b.2 = .procedure p →
        Trace.countName ∉ p.names := by
      intro b hb p hbp
      simp only [m', List.mem_cons, List.not_mem_nil, or_false] at hb
      rcases hb with rfl | rfl | rfl | rfl <;> cases hbp <;> decide
    exact hfunctions _ (Bindings.mem_of_get? hp) p rfl
  have h := trace_count_is_spent_exactly ⟨9, 0⟩ 9 n
  have hopen : Channel.empty.Open := Channel.empty_open
  exact ⟨⟨hm, hopen, by decide +kernel, by decide +kernel, h.1 e .globals m hm hopen⟩,
    ⟨hm', hopen, by decide +kernel, by decide +kernel, h.2 e' m' hm' hopen⟩⟩

end Primer
