/-
Primer/Text/Typed.lean

What a line of typed text comes to.  A backspace takes back the cluster before it
and is gone itself; where nothing is left to take back it does nothing.

For each cluster that still stands its size in bytes is kept, in a single byte.
The size of a cluster of 256 bytes or more is therefore kept too small, and a
backspace after it takes back only so many bytes from the end.

A line without a backspace is what it is (`typed_eq_self`).
-/
import Primer.Text.Cluster

namespace Primer.Text

def backspace : Char := Char.ofNat 8

/-- The size of characters in bytes. -/
def byteSize (cs : List Char) : Nat := cs.foldl (fun n c => n + c.utf8Size) 0

/-- Take off the first characters, as many as fit into so many bytes. -/
def dropBytes : Nat → List Char → List Char
  | _, [] => []
  | n, c :: cs => if n < c.utf8Size then c :: cs else dropBytes (n - c.utf8Size) cs

/-- Typed text so far. -/
structure Typed where
  /-- the characters that stand, last first -/
  chars : List Char
  /-- the sizes of the clusters that can be taken back, last first -/
  sizes : List Nat

namespace Typed

def empty : Typed := ⟨[], []⟩

/-- Type one more cluster. -/
def type (t : Typed) (cluster : List Char) : Typed :=
  if cluster = [backspace] then
    match t.sizes with
    | [] => t
    | size :: sizes => ⟨dropBytes size t.chars, sizes⟩
  else ⟨cluster.reverse ++ t.chars, byteSize cluster % 256 :: t.sizes⟩

/-- The text that stands. -/
def text (t : Typed) : String := String.ofList t.chars.reverse

end Typed

/-- What a line of typed text comes to. -/
def typed (line : String) : String :=
  ((clusters line.toList).foldl Typed.type .empty).text

theorem chars_foldl_type (t : Typed) {parts : List (List Char)} (h : [backspace] ∉ parts) :
    (parts.foldl Typed.type t).chars = parts.flatten.reverse ++ t.chars := by
  induction parts generalizing t with
  | nil => rfl
  | cons part parts ih =>
    rw [List.mem_cons, not_or] at h
    rw [List.foldl_cons, ih _ h.2, Typed.type, if_neg (Ne.symm h.1)]
    simp

/-- A line without a backspace stands as it was typed. -/
theorem typed_eq_self {line : String} (h : backspace ∉ line.toList) : typed line = line := by
  have hparts : [backspace] ∉ clusters line.toList := by
    intro hmem
    apply h
    rw [← flatten_clusters line.toList]
    exact List.mem_flatten.2 ⟨_, hmem, List.mem_singleton.2 rfl⟩
  have hchars := chars_foldl_type .empty hparts
  rw [flatten_clusters] at hchars
  rw [typed, Typed.text, hchars]
  simp [Typed.empty]

end Primer.Text
