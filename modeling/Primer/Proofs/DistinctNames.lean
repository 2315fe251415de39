/-
Primer/Proofs/DistinctNames.lean

Nothing is lost to a repeated name.

To make a frame out of names and values keeps only the last value of a name that
is listed twice, and so does a call of the procedural language with its formal
parameters.  Neither checks its names.  The checks are made long before: lambda
expressions and bindings are checked when they are recognised, functions when
they are defined.  Nothing else comes to be evaluated, so these checks are
enough (`no_binding_is_lost`).

For the functional language see `Functional.losesNothing_runTexts`, for the
procedural one `Procedural.argumentsKept_runTexts`.
-/
import Primer.Proofs.Functional.Binders
import Primer.Proofs.Procedural.Journal

namespace Primer

open Outcome

/-- A function that repeats a formal parameter is refused, and nothing is bound. -/
theorem Functional.define_of_not_nodup {f : Functional.Lambda} (h : ¬ f.formals.Nodup)
    (limits : Limits) (echo : Echo) (name : String) (m : Functional.State) :
    ∃ formal, Functional.define limits echo (.function name f) m
      = .fault (.repeatedFormal formal name) m := by
  rw [← repeated?_eq_none_iff] at h
  obtain ⟨formal, hformal⟩ := Option.ne_none_iff_exists'.1 h
  exact ⟨formal, by rw [Functional.define, hformal]⟩

/-- The same in the procedural language. -/
theorem Procedural.define_of_not_nodup {p : Procedural.Procedure} (h : ¬ p.formals.Nodup)
    (limits : Limits) (echo : Echo) (name : String) (m : Procedural.State) :
    ∃ formal, Procedural.define limits echo (.function name p) m
      = .fault (.repeatedParameter formal name) m := by
  rw [← repeated?_eq_none_iff] at h
  obtain ⟨formal, hformal⟩ := Option.ne_none_iff_exists'.1 h
  exact ⟨formal, by rw [Procedural.define, hformal]⟩

/-- **No argument and no binding is lost to a repeated name.**  Run any texts from a new
session, and note down what happens; with a journal a session does what it does
without one.  Then

* in the functional language every frame but the global one is made in an event
  that is noted, for names that are pairwise different, and has one place for each
  name, which is found with its own value; and all functions that are bound at the
  end have distinct formal parameters, as have those inside them;
* in the procedural language each formal parameter of a call holds its own
  argument, and all functions in the table at the end have distinct formal
  parameters;
* a form that is accepted has no lambda expression and no bindings, however deep
  inside, that repeat a name;
* a function that repeats a formal parameter is not defined, in either language. -/
theorem no_binding_is_lost (console : Console) (limits : Limits) (settings : Settings)
    (disk : Disk) (texts : List (String × String)) :
    (let watched := (Functional.watchedTwin.session console limits settings).runTexts disk texts
     let plain := (Session.initial Language.functional console limits settings).runTexts disk texts
     Agree (fun s' s => Functional.watchedTwin.plain s' = s) Eq watched plain ∧
      (∀ id, 0 < id → id < Array.size (Functional.Store.frames plain.state.machine.memory.store) →
        ∃ event ∈ watched.state.machine.journal, event.made? = some id) ∧
      (∀ event ∈ watched.state.machine.journal, event.LosesNothing) ∧
      ∀ id, ∀ b ∈ Functional.Store.frame plain.state.machine.memory.store id,
        ∀ c ∈ b.2.closures, c.1.toExp.DistinctNames) ∧
    (let watched := (Procedural.watchedTwin.session console limits settings).runTexts disk texts
     let plain := (Session.initial Language.procedural console limits settings).runTexts disk texts
     Agree (fun s' s => Procedural.watchedTwin.plain s' = s) Eq watched plain ∧
      (∀ c ∈ watched.state.machine.journal, c.KeepsArguments) ∧
      Procedural.Memory.DistinctFormals plain.state.machine.memory) ∧
    (∀ form, Language.functional.Accepts form →
      (∀ e ∈ form.exps, Functional.Exp.DistinctNames e) ∧
        ∀ name f, form = .definition (.function name f) →
          Functional.Exp.DistinctNames (Functional.Lambda.body f)) ∧
    (∀ limits echo name f m, ¬ f.formals.Nodup →
      ∃ formal, Functional.define limits echo (.function name f) m
        = .fault (.repeatedFormal formal name) m) ∧
    ∀ limits echo name p m, ¬ p.formals.Nodup →
      ∃ formal, Procedural.define limits echo (.function name p) m
        = .fault (.repeatedParameter formal name) m := by
  refine ⟨Functional.losesNothing_runTexts console limits settings disk texts,
    Procedural.argumentsKept_runTexts console limits settings disk texts,
    fun form hform => Functional.distinctNames_of_accepts hform, ?_, ?_⟩
  · exact fun limits echo name f m h => Functional.define_of_not_nodup h limits echo name m
  · exact fun limits echo name p m h => Procedural.define_of_not_nodup h limits echo name m

/-- Six frames of all kinds, two calls of a procedural function one in the other, and a
function that is refused. -/
theorem no_binding_is_lost_nested :
    let texts := [("", "(define f (x y) (cons x y)) (let ((a 1) (b 2)) (f a b)) " ++
      "(let* ((a 1) (a 2)) a) (letrec ((g (lambda (x) x))) (g 1))")]
    let texts' := [("", "(define f (x y) (+ x y)) (f (f 1 2) 4)")]
    let run := (Functional.watchedTwin.session .empty ⟨9, 9⟩ ⟨.off, .shown⟩).runTexts .empty texts
    let run' := (Procedural.watchedTwin.session .empty ⟨9, 9⟩ ⟨.off, .shown⟩).runTexts .empty texts'
    let f : Functional.Lambda := ⟨0, ["x", "y", "x"], .var "x"⟩
    (run.state.machine.journal.filterMap (·.made?) = [6, 5, 4, 3, 2, 1] ∧
      ∀ event ∈ run.state.machine.journal, event.LosesNothing) ∧
    (run'.state.machine.journal.map (fun c => c.args.map (·.val)) = [[3, 4], [1, 2]] ∧
      ∀ c ∈ run'.state.machine.journal, c.KeepsArguments) ∧
    (¬ f.formals.Nodup ∧ ∀ m, ∃ formal, Functional.define ⟨9, 9⟩ .off (.function "f" f) m
      = .fault (.repeatedFormal formal "f") m) := by
  intro texts texts' run run' f
  have hf : ¬ f.formals.Nodup := by decide
  refine ⟨⟨by decide +kernel, ?_⟩, ⟨by decide +kernel, ?_⟩, hf, fun m => ?_⟩
  · exact (no_binding_is_lost .empty ⟨9, 9⟩ ⟨.off, .shown⟩ .empty texts).1.2.2.1
  · exact (no_binding_is_lost .empty ⟨9, 9⟩ ⟨.off, .shown⟩ .empty texts').2.1.2.1
  · exact (no_binding_is_lost .empty ⟨9, 9⟩ ⟨.off, .shown⟩ .empty texts).2.2.2.1 _ _ "f" f m hf

end Primer
