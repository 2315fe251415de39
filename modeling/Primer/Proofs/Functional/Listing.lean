/-
Primer/Proofs/Functional/Listing.lean

The listing of an environment agrees with look-up.

Look-up goes from the innermost frame outwards and stops at the first frame that binds
the name.  The listing (`Store.visible`) goes through all frames, lays each over
those around it and sorts what is left.  It has exactly the names that look-up
finds, each once and with the value that look-up gives
(`listing_agrees_with_lookup`).

Names are compared character by character.  In UTF-8 that is to compare their bytes:
of two characters the one with the smaller number has the smaller encoding, however
many bytes the two take (`lex_utf8EncodeChar`), so no text has to be decoded to be
put in order.
-/
import Mathlib.Data.List.Lex
import Primer.Proofs.Functional.Environments

namespace Primer

/-! ### The order of bytes -/

/-- The bytes of a text in UTF-8. -/
def utf8 (text : String) : List UInt8 := text.toByteArray.data.toList

theorem utf8_eq_flatMap (text : String) :
    utf8 text = text.toList.flatMap String.utf8EncodeChar := by
  rw [utf8, ← String.utf8Encode_toList, List.utf8Encode, List.data_toByteArray]

/-- The bytes of one text come before those of another. -/
def BytesBefore (s t : String) : Prop := List.Lex (· < ·) (utf8 s) (utf8 t)

section

variable {x y : Nat} {s t : List UInt8}

theorem lex_byte_of_lt (h : x < y) (hy : y < 256) :
    List.Lex (· < ·) (UInt8.ofNat x :: s) (UInt8.ofNat y :: t) := by
  apply List.Lex.rel
  rw [UInt8.lt_iff_toNat_lt, UInt8.toNat_ofNat', UInt8.toNat_ofNat']
  omega

theorem lex_byte_of_le (h : x ≤ y) (hy : y < 256) (htail : x = y → List.Lex (· < ·) s t) :
    List.Lex (· < ·) (UInt8.ofNat x :: s) (UInt8.ofNat y :: t) := by
  rcases Nat.lt_or_eq_of_le h with h | rfl
  · exact lex_byte_of_lt h hy
  · exact .cons (htail rfl)

/-- The encoding of the smaller character comes first, whatever follows. -/
theorem lex_utf8EncodeChar {c d : Char} (h : c < d) (s t : List UInt8) :
    List.Lex (· < ·) (String.utf8EncodeChar c ++ s) (String.utf8EncodeChar d ++ t) := by
  have hlt : c.val.toNat < d.val.toNat := h
  have hd : d.val.toNat < 1114112 := by
    rcases d.valid with hvalid | hvalid <;> omega
  unfold String.utf8EncodeChar
  generalize c.val.toNat = a at hlt
  generalize d.val.toNat = b at hlt hd
  dsimp only
  -- Where the larger character takes more bytes, its first byte is larger already.
  -- Otherwise the first bytes are in order, and where they are equal so are the second
  -- ones, and so on, until the last ones decide.
  split
  · repeat' split
    all_goals exact lex_byte_of_lt (by omega) (by omega)
  · split
    · rw [if_neg (by omega)]
      split
      · apply lex_byte_of_le (by omega) (by omega)
        intro h₁
        exact lex_byte_of_lt (by omega) (by omega)
      · split
        all_goals exact lex_byte_of_lt (by omega) (by omega)
    · split
      · rw [if_neg (by omega), if_neg (by omega)]
        split
        · apply lex_byte_of_le (by omega) (by omega)
          intro h₁
          apply lex_byte_of_le (by omega) (by omega)
          intro h₂
          exact lex_byte_of_lt (by omega) (by omega)
        · exact lex_byte_of_lt (by omega) (by omega)
      · rw [if_neg (by omega), if_neg (by omega), if_neg (by omega)]
        apply lex_byte_of_le (by omega) (by omega)
        intro h₁
        apply lex_byte_of_le (by omega) (by omega)
        intro h₂
        apply lex_byte_of_le (by omega) (by omega)
        intro h₃
        exact lex_byte_of_lt (by omega) (by omega)

end

/-- Encoding keeps the order of characters. -/
theorem lex_flatMap_utf8EncodeChar {cs ds : List Char} (h : List.Lex (· < ·) cs ds) :
    List.Lex (· < ·) (cs.flatMap String.utf8EncodeChar) (ds.flatMap String.utf8EncodeChar) := by
  induction h with
  | @nil d ds =>
    rw [List.flatMap_nil, List.flatMap_cons]
    obtain ⟨b, bs, hd⟩ := List.exists_cons_of_ne_nil (String.utf8EncodeChar_ne_nil (c := d))
    rw [hd]
    exact .nil
  | rel hlt =>
    rw [List.flatMap_cons, List.flatMap_cons]
    exact lex_utf8EncodeChar hlt _ _
  | cons _ ih =>
    rw [List.flatMap_cons, List.flatMap_cons]
    exact List.Lex.append_left _ ih _

/-- Texts that are in order have their bytes in order. -/
theorem bytesBefore_of_lt {s t : String} (h : s < t) : BytesBefore s t := by
  rw [BytesBefore, utf8_eq_flatMap, utf8_eq_flatMap]
  exact lex_flatMap_utf8EncodeChar h

/-! ### Bindings in order -/

namespace Bindings

variable {α : Type} {bs : Bindings α}

/-- With distinct names, what is bound is what look-up finds. -/
theorem mem_iff_get? (h : bs.names.Nodup) {x : String} {a : α} :
    (x, a) ∈ bs ↔ bs.get? x = some a := by
  refine ⟨fun hmem => ?_, mem_of_get?⟩
  induction bs with
  | nil => cases hmem
  | cons b bs ih =>
    obtain ⟨hb, hbs⟩ : b.1 ∉ names bs ∧ (names bs).Nodup := List.nodup_cons.1 h
    rw [get?]
    rcases List.mem_cons.1 hmem with rfl | hmem
    · rw [if_pos rfl]
    · have hx : x ∈ names bs := List.mem_map_of_mem (f := Prod.fst) hmem
      have hne : b.1 ≠ x := fun heq => hb (heq ▸ hx)
      rw [if_neg hne]
      exact ih hbs hmem

theorem get?_append (bs bs' : Bindings α) (x : String) :
    get? x (bs ++ bs') = (bs.get? x).or (bs'.get? x) := by
  induction bs with
  | nil => rfl
  | cons b bs ih =>
    rw [List.cons_append, get?, get?]
    split
    · rfl
    · exact ih

theorem get?_filter_of_pos {p : String → Bool} {x : String} (hx : p x = true) (bs : Bindings α) :
    get? x (bs.filter fun b => p b.1) = bs.get? x := by
  induction bs with
  | nil => rfl
  | cons b bs ih =>
    rw [List.filter_cons]
    by_cases heq : b.1 = x
    · have hb : p b.1 = true := heq ▸ hx
      rw [if_pos hb, get?, get?, if_pos heq, if_pos heq]
    · split
      · rw [get?, get?, if_neg heq, if_neg heq, ih]
      · rw [ih, get?, if_neg heq]

theorem sorted_perm (bs : Bindings α) : bs.sorted.Perm bs := List.mergeSort_perm bs _

/-- With distinct names, each name comes before the next. -/
theorem pairwise_sorted (h : bs.names.Nodup) : bs.sorted.Pairwise fun b b' => b.1 < b'.1 := by
  have hle : bs.sorted.Pairwise fun b b' => decide (b.1 ≤ b'.1) = true := by
    apply List.pairwise_mergeSort
    · intro a b c hab hbc
      exact decide_eq_true (String.le_trans (of_decide_eq_true hab) (of_decide_eq_true hbc))
    · intro a b
      simpa using String.le_total a.1 b.1
  have hne : bs.sorted.Pairwise fun b b' => b.1 ≠ b'.1 := by
    apply List.pairwise_map.1
    exact ((sorted_perm bs).map Prod.fst).nodup_iff.2 h
  refine hle.imp₂ (fun b b' hb hb' => ?_) hne
  rw [← String.not_le]
  exact fun hge => hb' (String.le_antisymm (of_decide_eq_true hb) hge)

end Bindings

/-! ### Frames over one another -/

namespace Functional

namespace Store

variable {s : Store}

theorem get?_overlay (inner outer : Frame) (x : String) :
    (overlay inner outer).get? x = (inner.get? x).or (outer.get? x) := by
  rw [overlay, Bindings.get?_append]
  cases hx : inner.get? x with
  | some v => rfl
  | none =>
    have hhas : (!inner.has x) = true := by rw [Bindings.has_eq_false_iff.2 hx, Bool.not_false]
    rw [Option.none_or, Option.none_or]
    exact Bindings.get?_filter_of_pos (p := fun y => !inner.has y) hhas outer

theorem nodup_names_overlay {inner outer : Frame} (hinner : inner.names.Nodup)
    (houter : outer.names.Nodup) : (overlay inner outer).names.Nodup := by
  rw [Bindings.names, overlay, List.map_append]
  refine List.nodup_append.2 ⟨hinner, ?_, ?_⟩
  · exact houter.sublist (List.filter_sublist.map _)
  · rintro x hx y hy rfl
    obtain ⟨b, hb, rfl⟩ := List.mem_map.1 hy
    have hnot : (!inner.has b.1) = true := (List.mem_filter.1 hb).2
    rw [Bindings.mem_names_iff.1 hx] at hnot
    cases hnot

/-- The frames laid over one another bind what is found in the frames. -/
theorem get?_visibleIn (s : Store) (ids : List FrameId) (x : String) :
    (s.visibleIn ids).get? x = s.getIn x ids := by
  induction ids with
  | nil => rfl
  | cons id ids ih =>
    show (overlay (s.frame id) (s.visibleIn ids)).get? x = s.getIn x (id :: ids)
    rw [get?_overlay, ih, getIn]
    cases (s.frame id).get? x <;> rfl

theorem nodup_names_visibleIn (h : ∀ id, (s.frame id).names.Nodup) (ids : List FrameId) :
    (s.visibleIn ids).names.Nodup := by
  induction ids with
  | nil => exact List.nodup_nil
  | cons id ids ih => exact nodup_names_overlay (h id) ih

end Store

/-- The listing of an environment is in the order of the bytes of the names, with no name
twice, and a name is listed with a value exactly if look-up gives the name this value. -/
theorem listing_agrees_with_lookup {s : Store} {envs : List Env} (h : Built s envs)
    (env : Env) :
    (s.visible env).Pairwise (fun b b' => BytesBefore b.1 b'.1) ∧
    ∀ name v, (name, v) ∈ s.visible env ↔ s.get? env name = some v := by
  have hnodup := Store.nodup_names_visibleIn h.sound.distinct env.frames
  constructor
  · exact (Bindings.pairwise_sorted hnodup).imp bytesBefore_of_lt
  · intro name v
    rw [Store.visible, (Bindings.sorted_perm _).mem_iff, Bindings.mem_iff_get? hnodup,
      Store.get?_visibleIn, Store.get?]

/-- A name that is hidden, among names whose encodings take two, three and four bytes. -/
theorem listing_agrees_with_lookup_shadowed :
    let outer : Env := ⟨0, []⟩
    let inner : Env := ⟨1, [0]⟩
    let s : Store := ⟨#[[("～", .bool true), ("é", .nil)], [("𐐷", .nil), ("é", .bool false)]]⟩
    Built s [inner, outer] ∧
      (s.visible inner).Pairwise (fun b b' => BytesBefore b.1 b'.1) ∧
      ("é", .bool false) ∈ s.visible inner ∧ ("é", .nil) ∉ s.visible inner ∧
      ("～", .bool true) ∈ s.visible inner := by
  intro outer inner s
  have hbuilt : Built s [inner, outer] := by
    have houter : Built ⟨#[[("～", .bool true), ("é", .nil)]]⟩ [outer] :=
      .define "é" .nil (.define "～" (.bool true) (.new .empty) (.head _)) (.head _)
    exact houter.extend [("𐐷", .nil), ("é", .bool false)] (.head _)
  obtain ⟨horder, hlisted⟩ := listing_agrees_with_lookup hbuilt inner
  refine ⟨hbuilt, horder, (hlisted _ _).2 rfl, fun hmem => ?_, (hlisted _ _).2 rfl⟩
  have hfound : s.get? inner "é" = some (.bool false) := rfl
  rw [hlisted, hfound] at hmem
  cases hmem

end Functional

end Primer
