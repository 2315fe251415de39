/-
Primer/Functional/Store.lean

Frames and what the names in them are bound to.  A frame is shared by the call
that made it and by every closure that captured it, so frames live in one store
and environments refer to them by number.  Frames are only ever added; a frame
keeps its number, and no two environments made at different times have the same
innermost frame.  What a frame holds may be let go of once nothing can get at the
frame any more; see `Primer.Functional.Collector`.
-/
import Primer.Bindings
import Primer.Functional.Value

namespace Primer.Functional

/-- The names of a frame and their values. -/
abbrev Frame := Bindings Value

structure Store where
  frames : Array Frame

namespace Store

def empty : Store := ⟨#[]⟩

/-- A frame by its number. -/
def frame (s : Store) (id : FrameId) : Frame := s.frames.getD id []

/-- The first of some frames that binds a name. -/
def holderIn (s : Store) (name : String) : List FrameId → Option FrameId
  | [] => none
  | id :: ids => if (s.frame id).has name then some id else holderIn s name ids

/-- The frame in which an environment finds a name. -/
def holder? (s : Store) (env : Env) (name : String) : Option FrameId :=
  s.holderIn name env.frames

/-- What a name is bound to in the first of some frames that binds it. -/
def getIn (s : Store) (name : String) : List FrameId → Option Value
  | [] => none
  | id :: ids =>
      match (s.frame id).get? name with
      | some v => some v
      | none => getIn s name ids

/-- The value that an environment gives to a name. -/
def get? (s : Store) (env : Env) (name : String) : Option Value := s.getIn name env.frames

/-- Bind a name in one frame. -/
def update (s : Store) (id : FrameId) (name : String) (v : Value) : Store :=
  ⟨s.frames.modify id fun frame => frame.set name v⟩

/-- Bind a name in the innermost frame of an environment. -/
def define (s : Store) (env : Env) (name : String) (v : Value) : Store :=
  s.update env.inner name v

/-- Overwrite the value that an environment gives to a name; `none` if it gives
none. -/
def assign? (s : Store) (env : Env) (name : String) (v : Value) : Option Store :=
  match s.holder? env name with
  | some id => some (s.update id name v)
  | none => none

/-- A new frame with nothing around it. -/
def root (s : Store) (frame : Frame) : Env × Store :=
  (⟨s.frames.size, []⟩, ⟨s.frames.push frame⟩)

/-- A new frame inside an environment; of a repeated name the last value stays. -/
def extend (s : Store) (env : Env) (pairs : List (String × Value)) : Env × Store :=
  (⟨s.frames.size, env.frames⟩, ⟨s.frames.push (.ofList pairs)⟩)

/-- Unbind all names of the innermost frame. -/
def clear (s : Store) (env : Env) : Store := ⟨s.frames.modify env.inner fun _ => []⟩

/-- Unbind all names of some frames. -/
def clearAll (ids : List FrameId) (s : Store) : Store :=
  ids.foldl (fun s id => s.clear ⟨id, []⟩) s

/-- The names of an inner frame hide those of an outer one. -/
def overlay (inner outer : Frame) : Frame :=
  inner ++ outer.filter fun (x, _) => !inner.has x

/-- All that some frames bind, in the order of the names. -/
def visibleIn (s : Store) (ids : List FrameId) : Frame :=
  ids.foldr (fun id outer => overlay (s.frame id) outer) []

/-- What each name is bound to in an environment, in the order of the names. -/
def visible (s : Store) (env : Env) : List (String × Value) := (s.visibleIn env.frames).sorted

/-! ### Look-up and update -/

/-- A name's value is found in the frame that holds the name. -/
theorem getIn_eq_bind (s : Store) (name : String) (ids : List FrameId) :
    s.getIn name ids = (s.holderIn name ids).bind fun id => (s.frame id).get? name := by
  induction ids with
  | nil => rfl
  | cons id ids ih =>
    simp only [getIn, holderIn, Bindings.has_eq_isSome]
    cases h : (s.frame id).get? name with
    | none => simpa using ih
    | some v => simp [h]

theorem frame_update_ne {s : Store} {id other : FrameId} (h : other ≠ id) (name : String)
    (v : Value) : (s.update id name v).frame other = s.frame other := by
  simp [frame, update, Array.getD_eq_getD_getElem?, Array.getElem?_modify, Ne.symm h]

theorem frame_update_self {s : Store} {id : FrameId} (h : id < s.frames.size) (name : String)
    (v : Value) : (s.update id name v).frame id = (s.frame id).set name v := by
  simp [frame, update, Array.getD_eq_getD_getElem?, h, Array.getElem_modify]

/-- A new frame leaves the others as they are. -/
theorem frame_extend {s : Store} {id : FrameId} (h : id < s.frames.size) (env : Env)
    (pairs : List (String × Value)) : (s.extend env pairs).2.frame id = s.frame id := by
  simp [frame, extend, Array.getD_eq_getD_getElem?, Array.getElem?_push, Nat.ne_of_lt h]

/-- A new frame holds what it was made with. -/
theorem frame_extend_inner (s : Store) (env : Env) (pairs : List (String × Value)) :
    (s.extend env pairs).2.frame (s.extend env pairs).1.inner = .ofList pairs := by
  simp [frame, extend, Array.getD_eq_getD_getElem?]

end Store

end Primer.Functional
