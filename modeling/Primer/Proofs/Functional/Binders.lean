/-
Primer/Proofs/Functional/Binders.lean

The names that frames are made for.

`Exp.binders` lists, for each place of an expression where a frame is made, the
names of that frame: the formal parameters of a lambda expression, the names of
plain and of recursive bindings, and each name of sequential bindings by itself.
In every expression that is recognised these names are pairwise different
(`distinctNames_of_denotes`).  Loading an expression changes labels only, and
evaluation goes from expressions to their parts and bodies; so in the course of
any session no frame is made for a repeated name, and each holds the values it
was made with under their own names (`losesNothing_runTexts`).
-/
import Primer.Proofs.Forms
import Primer.Proofs.Functional.Session

namespace Primer

/-- A datum that begins with a keyword is a list of it and its parts. -/
theorem Form.eq_list_of_split? {d : Datum} {keyword : Keyword} {parts : List Datum}
    (h : split? d = some (keyword, parts)) : ∃ head, d = .list (head :: parts) := by
  unfold split? at h
  split at h
  · obtain ⟨keyword', -, heq⟩ := Option.map_eq_some_iff.1 h
    cases heq
    exact ⟨_, rfl⟩
  · cases h

/-- What the expressions and the function of a recognised form were recognised from, with no
symbols but those of the form. -/
theorem Form.of_ofDatum {ε φ : Type} {exp : Datum → Except Malformed ε}
    {function : Datum → List Datum → Except Malformed (String × φ)} {d : Datum} {form : Form ε φ}
    (h : Form.ofDatum exp function d = .ok form) :
    (∀ e ∈ form.exps, ∃ d', exp d' = .ok e ∧
        ∀ name, d'.mentions name = true → d.mentions name = true) ∧
      ∀ name f, form = .definition (.function name f) →
        ∃ parts, function d parts = .ok (name, f) ∧
          ∀ part ∈ parts, ∀ name, part.mentions name = true → d.mentions name = true := by
  unfold Form.ofDatum at h
  split at h
  · obtain ⟨e, he, h⟩ := Except.bind_eq_ok_iff.1 h
    cases h
    exact ⟨List.forall_mem_singleton.2 ⟨_, he, fun _ hname => hname⟩, nofun⟩
  · next keyword parts hsplit =>
    obtain ⟨head, rfl⟩ := Form.eq_list_of_split? hsplit
    have hpart : ∀ part ∈ parts, ∀ name, part.mentions name = true →
        (Datum.list (head :: parts)).mentions name = true :=
      fun part hpart name hname => Datum.mentions_of_mem (List.mem_cons_of_mem head hpart) hname
    split at h
    · -- val
      next x d =>
      obtain ⟨x, -, h⟩ := Except.bind_eq_ok_iff.1 h
      obtain ⟨e, he, h⟩ := Except.bind_eq_ok_iff.1 h
      cases h
      exact ⟨List.forall_mem_singleton.2 ⟨d, he, hpart d (by simp)⟩, nofun⟩
    · -- define
      obtain ⟨⟨name, f⟩, hf, h⟩ := Except.bind_eq_ok_iff.1 h
      cases h
      refine ⟨fun e he => (nomatch he), fun name' f' heq => ?_⟩
      cases heq
      exact ⟨parts, hf, hpart⟩
    · -- use
      obtain ⟨file, -, h⟩ := Except.bind_eq_ok_iff.1 h
      cases h
      exact ⟨fun e he => (nomatch he), nofun⟩
    · -- check-expect
      next d d' =>
      obtain ⟨e, he, h⟩ := Except.bind_eq_ok_iff.1 h
      obtain ⟨expected, hexpected, h⟩ := Except.bind_eq_ok_iff.1 h
      cases h
      refine ⟨List.forall_mem_cons.2 ⟨⟨d, he, hpart d (by simp)⟩, ?_⟩, nofun⟩
      exact List.forall_mem_singleton.2 ⟨d', hexpected, hpart d' (by simp)⟩
    · -- check-assert
      next d =>
      obtain ⟨e, he, h⟩ := Except.bind_eq_ok_iff.1 h
      cases h
      exact ⟨List.forall_mem_singleton.2 ⟨d, he, hpart d (by simp)⟩, nofun⟩
    · -- check-error
      next d =>
      obtain ⟨e, he, h⟩ := Except.bind_eq_ok_iff.1 h
      cases h
      exact ⟨List.forall_mem_singleton.2 ⟨d, he, hpart d (by simp)⟩, nofun⟩
    · cases h

end Primer

namespace Primer.Functional

open Outcome

/-! ### The frames of an expression -/

/-- The frames that bindings make: one for all names, or one for each. -/
def LetKind.frames (kind : LetKind) (names : List String) : List (List String) :=
  match kind with
  | .sequential => names.map fun x => [x]
  | _ => [names]

namespace Exp

mutual

/-- The names of each frame that is made for an expression or for a part of it, however
deep inside. -/
def binders : Exp → List (List String)
  | literal _ => []
  | var _ => []
  | set _ e => binders e
  | cond test yes no => binders test ++ binders yes ++ binders no
  | loop test body => binders test ++ binders body
  | block parts => bindersEach parts
  | apply callee args => binders callee ++ bindersEach args
  | lambda _ formals body => formals :: binders body
  | bind kind bindings body =>
      kind.frames (bindings.map (·.1)) ++ bindersInitial bindings ++ binders body

def bindersEach : List Exp → List (List String)
  | [] => []
  | e :: es => binders e ++ bindersEach es

/-- The same for initial values. -/
def bindersInitial : List (String × Exp) → List (List String)
  | [] => []
  | (_, e) :: bs => binders e ++ bindersInitial bs

end

/-- No frame is made for a repeated name. -/
def DistinctNames (e : Exp) : Prop := ∀ names ∈ e.binders, names.Nodup

variable {names : List String}

theorem mem_bindersEach {es : List Exp} :
    names ∈ bindersEach es ↔ ∃ e ∈ es, names ∈ e.binders := by
  induction es with
  | nil => simp [bindersEach]
  | cons e es ih => simp [bindersEach, ih]

theorem mem_bindersInitial {bs : List (String × Exp)} :
    names ∈ bindersInitial bs ↔ ∃ b ∈ bs, names ∈ b.2.binders := by
  induction bs with
  | nil => simp [bindersInitial]
  | cons b bs ih => simp [bindersInitial, ih]

theorem mem_binders_bind {kind : LetKind} {bindings : List (String × Exp)} {body : Exp} :
    names ∈ (bind kind bindings body).binders
      ↔ names ∈ kind.frames (bindings.map (·.1)) ∨ (∃ b ∈ bindings, names ∈ b.2.binders) ∨
          names ∈ body.binders := by
  rw [binders, List.mem_append, List.mem_append, mem_bindersInitial, or_assoc]

/-- A frame for a part is a frame for the whole. -/
theorem binders_part {e part : Exp} (h : part ∈ e.parts) (hx : names ∈ part.binders) :
    names ∈ e.binders := by
  cases e with
  | literal d => cases h
  | var y => cases h
  | lambda label formals body => cases h
  | set y e =>
    obtain rfl : part = e := by simpa [parts] using h
    exact hx
  | cond test yes no =>
    simp only [parts, List.mem_cons, List.not_mem_nil, or_false] at h
    rcases h with rfl | rfl | rfl <;> simp [binders, hx]
  | loop test body =>
    simp only [parts, List.mem_cons, List.not_mem_nil, or_false] at h
    rcases h with rfl | rfl <;> simp [binders, hx]
  | block parts => exact mem_bindersEach.2 ⟨part, h, hx⟩
  | apply callee args =>
    rw [binders, List.mem_append]
    rcases List.mem_cons.1 h with rfl | h
    · exact .inl hx
    · exact .inr (mem_bindersEach.2 ⟨part, h, hx⟩)
  | bind kind bindings body =>
    rw [mem_binders_bind]
    cases kind with
    | plain =>
      obtain ⟨b, hb, rfl⟩ := List.mem_map.1 h
      exact .inr (.inl ⟨b, hb, hx⟩)
    | sequential =>
      cases bindings with
      | nil =>
        obtain rfl : part = body := by simpa [parts] using h
        exact .inr (.inr hx)
      | cons b bs =>
        obtain rfl : part = b.2 := by simpa [parts] using h
        exact .inr (.inl ⟨b, List.mem_cons_self, hx⟩)
    | recursive => cases h

/-- The frame of a body, and the frames for the body, are frames for the whole. -/
theorem binders_body {e body : Exp} {bound : List String} (h : (bound, body) ∈ e.bodies) :
    bound ∈ e.binders ∧ ∀ names ∈ body.binders, names ∈ e.binders := by
  cases e with
  | lambda label formals body =>
    obtain ⟨rfl, rfl⟩ : bound = formals ∧ _ = body := by simpa [bodies] using h
    exact ⟨List.mem_cons_self, fun names hx => List.mem_cons_of_mem _ hx⟩
  | bind kind bindings body =>
    cases kind with
    | plain =>
      obtain ⟨rfl, rfl⟩ : bound = bindings.map (·.1) ∧ _ = body := by simpa [bodies] using h
      exact ⟨mem_binders_bind.2 (.inl List.mem_cons_self),
        fun names hx => mem_binders_bind.2 (.inr (.inr hx))⟩
    | sequential =>
      cases bindings with
      | nil => cases h
      | cons b bs =>
        obtain ⟨rfl, rfl⟩ : bound = [b.1] ∧ _ = bind .sequential bs body := by
          simpa [bodies] using h
        -- the bindings that are left make the frames after the first
        refine ⟨mem_binders_bind.2 (.inl List.mem_cons_self), fun names hx => ?_⟩
        rw [mem_binders_bind] at hx ⊢
        rcases hx with hx | ⟨b', hb', hx⟩ | hx
        · exact .inl (List.mem_cons_of_mem _ hx)
        · exact .inr (.inl ⟨b', List.mem_cons_of_mem b hb', hx⟩)
        · exact .inr (.inr hx)
    | recursive =>
      simp only [bodies, List.mem_cons, List.mem_map, Prod.mk.injEq] at h
      rcases h with ⟨rfl, rfl⟩ | ⟨b, hb, rfl, rfl⟩
      · exact ⟨mem_binders_bind.2 (.inl List.mem_cons_self),
          fun names hx => mem_binders_bind.2 (.inr (.inr hx))⟩
      · exact ⟨mem_binders_bind.2 (.inl List.mem_cons_self),
          fun names hx => mem_binders_bind.2 (.inr (.inl ⟨b, hb, hx⟩))⟩
  | _ => cases h

mutual

/-- Labels have nothing to do with the frames. -/
theorem binders_labelled (next : Nat) (e : Exp) : (e.labelled next).1.binders = e.binders :=
  match e with
  | literal _ => rfl
  | var _ => rfl
  | set _ e => by simp only [labelled, binders, binders_labelled _ e]
  | cond test yes no => by
      simp only [labelled, binders, binders_labelled _ test, binders_labelled _ yes,
        binders_labelled _ no]
  | loop test body => by
      simp only [labelled, binders, binders_labelled _ test, binders_labelled _ body]
  | block parts => by simp only [labelled, binders, bindersEach_labelled _ parts]
  | apply callee args => by
      simp only [labelled, binders, binders_labelled _ callee, bindersEach_labelled _ args]
  | lambda _ formals body => by simp only [labelled, binders, binders_labelled _ body]
  | bind kind bindings body => by
      simp only [labelled, binders, (bindersInitial_labelled _ bindings).1,
        (bindersInitial_labelled _ bindings).2, binders_labelled _ body]

theorem bindersEach_labelled (next : Nat) (es : List Exp) :
    bindersEach (labelledEach next es).1 = bindersEach es :=
  match es with
  | [] => rfl
  | e :: es => by
      simp only [labelledEach, bindersEach, binders_labelled _ e, bindersEach_labelled _ es]

theorem bindersInitial_labelled (next : Nat) (bs : List (String × Exp)) :
    (labelledBindings next bs).1.map (·.1) = bs.map (·.1) ∧
      bindersInitial (labelledBindings next bs).1 = bindersInitial bs :=
  match bs with
  | [] => ⟨rfl, rfl⟩
  | (x, e) :: bs => by
      simp only [labelledBindings, bindersInitial, List.map_cons, binders_labelled _ e,
        (bindersInitial_labelled _ bs).1, (bindersInitial_labelled _ bs).2, and_self]

end

theorem DistinctNames.labelled {e : Exp} (h : e.DistinctNames) (next : Nat) :
    (e.labelled next).1.DistinctNames := by
  unfold DistinctNames
  rw [binders_labelled]
  exact h

end Exp

/-! ### Recognised expressions -/

/-- Sequential bindings make a frame for each name; the others must not repeat one. -/
theorem LetKind.nodup_of_mem_frames {kind : LetKind} {all names : List String}
    (h : kind ≠ .sequential → all.Nodup) (hnames : names ∈ kind.frames all) : names.Nodup := by
  cases kind with
  | sequential =>
    obtain ⟨x, -, rfl⟩ := List.mem_map.1 hnames
    exact List.pairwise_singleton _ x
  | plain =>
    obtain rfl := List.mem_singleton.1 hnames
    exact h nofun
  | recursive =>
    obtain rfl := List.mem_singleton.1 hnames
    exact h nofun

/-- In an expression that a datum denotes no frame is made for a repeated name. -/
theorem distinctNames_of_denotes {d : Datum} {e : Exp} (h : Denotes d e) : e.DistinctNames := by
  induction h with
  | number n => exact fun names hx => nomatch hx
  | bool b => exact fun names hx => nomatch hx
  | symbol name => exact fun names hx => nomatch hx
  | quote _ => exact fun names hx => nomatch hx
  | set _ ih => exact ih
  | cond _ _ _ ih₁ ih₂ ih₃ =>
    intro names hx
    rw [Exp.binders, List.mem_append, List.mem_append] at hx
    rcases hx with (hx | hx) | hx
    · exact ih₁ names hx
    · exact ih₂ names hx
    · exact ih₃ names hx
  | loop _ _ ih₁ ih₂ =>
    intro names hx
    rw [Exp.binders, List.mem_append] at hx
    exact hx.elim (ih₁ names) (ih₂ names)
  | block _ ihs =>
    intro names hx
    obtain ⟨e, he, hx⟩ := Exp.mem_bindersEach.1 hx
    obtain ⟨p, hp, rfl⟩ := List.mem_map.1 he
    exact ihs p hp names hx
  | apply _ _ _ ih ihs =>
    intro names hx
    rw [Exp.binders, List.mem_append] at hx
    rcases hx with hx | hx
    · exact ih names hx
    · obtain ⟨e, he, hx⟩ := Exp.mem_bindersEach.1 hx
      obtain ⟨p, hp, rfl⟩ := List.mem_map.1 he
      exact ihs p hp names hx
  | lambda hformals _ ih => exact List.forall_mem_cons.2 ⟨hformals, ih⟩
  | bind hnames _ _ ihs ih =>
    intro names hx
    rcases Exp.mem_binders_bind.1 hx with hx | ⟨b, hb, hx⟩ | hx
    · exact LetKind.nodup_of_mem_frames hnames hx
    · obtain ⟨p, hp, rfl⟩ := List.mem_map.1 hb
      exact ihs p hp names hx
    · exact ih names hx

theorem ofDatum_of_recognise {d : Datum} {form : Form Exp Lambda} (h : recognise d = .ok form) :
    Form.ofDatum Exp.ofDatum Lambda.ofParts d = .ok form := by
  unfold recognise at h
  cases hof : Form.ofDatum Exp.ofDatum Lambda.ofParts d with
  | error e =>
    rw [hof] at h
    cases h
  | ok form' =>
    rw [hof] at h
    cases h
    rfl

/-- The body of a function that is defined was recognised from one of the parts. -/
theorem Lambda.of_ofParts {d : Datum} {parts : List Datum} {name : String} {f : Lambda}
    (h : Lambda.ofParts d parts = .ok (name, f)) : ∃ part ∈ parts, Exp.ofDatum part = .ok f.body := by
  unfold Lambda.ofParts at h
  split at h
  · next body =>
    obtain ⟨formals, -, h⟩ := Except.bind_eq_ok_iff.1 h
    obtain ⟨e, he, h⟩ := Except.bind_eq_ok_iff.1 h
    obtain ⟨name', -, h⟩ := Except.bind_eq_ok_iff.1 h
    cases h
    exact ⟨body, by simp, he⟩
  · cases h

/-- The expressions of a form that is accepted, and the body of its function, make no frame
for a repeated name. -/
theorem distinctNames_of_accepts {form : Form Exp Lambda}
    (h : Language.functional.Accepts form) :
    (∀ e ∈ form.exps, e.DistinctNames) ∧
      ∀ name f, form = .definition (.function name f) → f.body.DistinctNames := by
  obtain ⟨d, hd⟩ := h
  obtain ⟨hexps, hfunction⟩ := Form.of_ofDatum (ofDatum_of_recognise hd)
  refine ⟨fun e he => ?_, fun name f heq => ?_⟩
  · obtain ⟨d', hd', -⟩ := hexps e he
    exact distinctNames_of_denotes (denotes_of_ofDatum hd')
  · obtain ⟨parts, hparts, -⟩ := hfunction name f heq
    obtain ⟨part, -, hpart⟩ := Lambda.of_ofParts hparts
    exact distinctNames_of_denotes (denotes_of_ofDatum hpart)

/-! ### Evaluation -/

/-- Only expressions that make no frame for a repeated name are evaluated. -/
def distinctDiscipline : Discipline OneWorld where
  scope _ e _ := e.DistinctNames
  live _ _ := True
  shape _ _ := True
  hole := True
  grow _ _ _ := .only
  first := 1

theorem distinctDiscipline_kept : distinctDiscipline.Kept where
  le_grow _ _ _ := trivial
  scope_mono _ h := h
  scope_part h hpart names hx := h names (Exp.binders_part hpart hx)
  scope_body _ h hbody names hx := h names ((Exp.binders_body hbody).2 names hx)
  scope_live _ _ _ := trivial
  live_grow _ _ := .inr trivial
  shape_extend _ _ := trivial
  shape_update _ _ _ := trivial
  abandon := by
    -- a frame of placeholders is as good as any
    intro w s e env names vs _ _
    refine ⟨.only, trivial, trivial, fun id _ => ?_⟩
    by_cases hid : id = s.frames.size
    · exact .inl ⟨hid, trivial⟩
    · exact .inr ⟨hid, trivial⟩

theorem distinctDiscipline_serves : distinctDiscipline.Serves .only where
  toKept := distinctDiscipline_kept
  initial := by
    refine ⟨trivial, fun id _ b hb => ?_⟩
    obtain ⟨p, hp⟩ := primitive_of_mem_initial hb
    rw [hp]
    exact .primitive p
  exp next _ hform he := ((distinctNames_of_accepts hform).1 _ he).labelled next
  function := by
    intro w name f next _ hform hformals
    have hbody := (distinctNames_of_accepts hform).2 name f rfl
    exact List.forall_mem_cons.2 ⟨hformals, hbody.labelled (next + 1)⟩
  shape_define _ _ _ := trivial
  first := rfl

/-- The innermost frame of an environment has one place for each of some names, and each
name is found with its own value. -/
structure BindsApart (inner : Env) (names : List String) (vs : List Value) (s : Store) : Prop where
  frame : Bindings.BindsEach names vs (s.frame inner.inner)
  found : ∀ (i : Nat) (x : String) (v : Value), names[i]? = some x → vs[i]? = some v →
    s.get? inner x = some v

/-- If the event is the making of a frame, no name and no value is lost in it. -/
def Event.LosesNothing : Event → Prop
  | bound inner names vs s => BindsApart inner names vs s
  | reserved inner names s => BindsApart inner names (names.map fun _ => .unspecified) s
  | filled inner names vs s => BindsApart inner names vs s
  | _ => True

variable {w : OneWorld}

/-- A frame that is made for a body of an expression without repeated names. -/
theorem bindsApart_of_makes {inner : Env} {names : List String} {vs : List Value} {s : Store}
    (h : distinctDiscipline.Makes w inner names vs s) : BindsApart inner names vs s := by
  obtain ⟨⟨e, env, body, hdistinct, hbody⟩, hlen, hframe⟩ := h
  -- the names are those of a body of `e`
  have hnames : names.Nodup := hdistinct names (Exp.binders_body hbody).1
  have heach : Bindings.BindsEach names vs (s.frame inner.inner) := by
    rw [hframe]
    exact Bindings.bindsEach_ofList hnames hlen
  refine ⟨heach, fun i x v hx hv => ?_⟩
  have hget := heach.values i x v hx hv
  simp only [Store.get?, Env.frames, Store.getIn, hget]

theorem losesNothing_of_allows {event : Event} (h : distinctDiscipline.Allows w event) :
    event.LosesNothing := by
  cases event with
  | bound => exact bindsApart_of_makes h.1
  | reserved => exact bindsApart_of_makes h
  | filled => exact bindsApart_of_makes h.1
  | _ => trivial

/-- In the course of a session every frame but the global one is made in an event that is
noted, none of them loses a name or a value, and every closure that a frame holds
at the end is of a function without repeated names. -/
theorem losesNothing_runTexts (console : Console) (limits : Limits) (settings : Settings)
    (disk : Disk) (texts : List (String × String)) :
    let watched := (watchedTwin.session console limits settings).runTexts disk texts
    let plain := (Session.initial Language.functional console limits settings).runTexts disk texts
    Agree (fun s' s => watchedTwin.plain s' = s) Eq watched plain ∧
      (∀ id, 0 < id → id < Array.size (Store.frames plain.state.machine.memory.store) →
        ∃ event ∈ watched.state.machine.journal, event.made? = some id) ∧
      (∀ event ∈ watched.state.machine.journal, event.LosesNothing) ∧
      ∀ id, ∀ b ∈ Store.frame plain.state.machine.memory.store id, ∀ c ∈ b.2.closures,
        c.1.toExp.DistinctNames := by
  intro watched plain
  obtain ⟨hagree, w, -, hwatches⟩ :=
    distinctDiscipline_serves.runTexts console limits settings disk texts
  refine ⟨hagree, hwatches.sound.recorded.made, fun event hevent => ?_, fun id b hb c hc => ?_⟩
  · obtain ⟨w, hallows⟩ := hwatches.sound.allowed event hevent
    exact losesNothing_of_allows hallows
  · exact (hwatches.holds.values id trivial b hb).scope c hc

end Primer.Functional
