/-
Primer/Proofs/Snippets.lean

What the snippet of an error shows of its text.

A snippet is a window of the text, on one line, with a mark at each end where text was
left out.  Its start is computed from the place of the error in bytes and counted off
in characters.  Every character takes at least one byte, so the window never starts
too early, but each character beyond ASCII before the error moves its start further
on.  With more than twenty bytes too many the window starts behind the error, which is
then not shown (`place_is_shown_iff`); and the end of the text is marked as left out
wherever such a character stands before the window.
-/
import Mathlib.Data.String.Basic
import Primer.Reader

namespace Primer.Text

/-! ### Windows -/

/-- A piece of a text, with what stands before it and after it. -/
structure Window (text : List Char) where
  before : List Char
  piece : List Char
  after : List Char
  whole : before ++ piece ++ after = text

namespace Window

variable {text : List Char}

/-- The characters from `start` on, at most `size` of them. -/
def slice (text : List Char) (start size : Nat) : Window text where
  before := text.take start
  piece := (text.drop start).take size
  after := (text.drop start).drop size
  whole := by rw [List.append_assoc, List.take_append_drop, List.take_append_drop]

/-- The character with `k` characters before it is one of the piece. -/
def Has (w : Window text) (k : Nat) : Prop :=
  w.before.length ≤ k ∧ k < w.before.length + w.piece.length

end Window

/-- The mark of text that was left out, where there is such text. -/
def mark (left : Bool) : String := if left then ellipsis else ""

/-- What the snippet for an error with `k` characters before it is meant to be: at most a
hundred characters of the text, that of the error among them, with a mark before them
exactly if they are not the first of the text, and one after them exactly if they are
not the last. -/
def ShowsPlace (text : List Char) (k : Nat) (context : String) : Prop :=
  ∃ w : Window text, w.piece.length ≤ snippetSize ∧ (k < text.length → w.Has k) ∧
    context = mark (!w.before.isEmpty) ++ oneLine (.ofList w.piece) ++ mark (!w.after.isEmpty)

/-! ### Texts on one line -/

theorem oneLine_append (s t : String) : oneLine (s ++ t) = oneLine s ++ oneLine t := by
  rw [oneLine, String.toList_append, List.flatMap_append, String.ofList_append]
  rfl

theorem oneLine_mark (left : Bool) : oneLine (mark left) = mark left := by
  cases left <;> rfl

/-- All other characters than line ends stay. -/
theorem mem_oneLine {c : Char} {cs : List Char} (hc : c ∈ cs) (hline : c ≠ '\n')
    (hreturn : c ≠ '\r') : c ∈ (oneLine (.ofList cs)).toList := by
  rw [oneLine, String.toList_ofList, String.toList_ofList]
  exact List.mem_flatMap.2 ⟨c, hc, by simp [hline, hreturn]⟩

/-! ### Characters and bytes -/

/-- How many bytes characters take. -/
def byteCount (cs : List Char) : Nat := (String.ofList cs).utf8ByteSize

/-- Characters of one byte each. -/
def isAscii (cs : List Char) : Bool := cs.all fun c => c.val ≤ 127

@[simp] theorem byteCount_nil : byteCount [] = 0 := rfl

theorem byteCount_cons (c : Char) (cs : List Char) :
    byteCount (c :: cs) = c.utf8Size + byteCount cs := by
  simp only [byteCount, String.utf8ByteSize_ofList, String.utf8Len_cons]
  exact Nat.add_comm _ _

theorem byteCount_append (cs ds : List Char) :
    byteCount (cs ++ ds) = byteCount cs + byteCount ds := by
  simp only [byteCount, String.utf8ByteSize_ofList, String.utf8Len_append]

theorem length_le_byteCount (cs : List Char) : cs.length ≤ byteCount cs := by
  induction cs with
  | nil => exact Nat.le_refl 0
  | cons c cs ih =>
    have hpos := c.utf8Size_pos
    rw [List.length_cons, byteCount_cons]
    omega

/-- There are as many bytes as characters if all characters are ASCII, and only then. -/
theorem byteCount_eq_length_iff {cs : List Char} :
    byteCount cs = cs.length ↔ isAscii cs = true := by
  induction cs with
  | nil => exact ⟨fun _ => rfl, fun _ => rfl⟩
  | cons c cs ih =>
    have hpos := c.utf8Size_pos
    have hle := length_le_byteCount cs
    have hone : c.utf8Size = 1 ↔ c.val ≤ 127 := Char.utf8Size_eq_one_iff
    rw [byteCount_cons, List.length_cons, isAscii, List.all_cons, Bool.and_eq_true,
      decide_eq_true_iff, ← hone]
    change _ ↔ _ ∧ isAscii cs = true
    rw [← ih]
    omega

theorem byteCount_pos {cs : List Char} (h : cs ≠ []) : 0 < byteCount cs :=
  Nat.lt_of_lt_of_le (List.length_pos_iff.2 h) (length_le_byteCount cs)

/-- A text has no fewer bytes than the characters of its beginning. -/
theorem byteCount_take_le (text : List Char) (k : Nat) :
    byteCount (text.take k) ≤ byteCount text := by
  have hsplit := byteCount_append (text.take k) (text.drop k)
  rw [List.take_append_drop] at hsplit
  omega

/-! ### The snippet -/

variable {text : List Char} {k : Nat}

/-- Where the window of a snippet starts, for an error with `k` characters before it. -/
def snippetStart (text : List Char) (k : Nat) : Nat := byteCount (text.take k) - snippetLead

/-- The window of a snippet. -/
def snippetWindow (text : List Char) (k : Nat) : Window text :=
  .slice text (snippetStart text k) snippetSize

/-- Where the window is not at the start of its text, there are further bytes from its start
on, if one counts its start in bytes. -/
theorem snippetStart_lt (h : 0 < snippetStart text k) : snippetStart text k < byteCount text := by
  have hle := byteCount_take_le text k
  unfold snippetStart at h ⊢
  unfold snippetLead at h ⊢
  omega

/-- There is text before the window exactly if it does not start at the beginning. -/
theorem isEmpty_before :
    (snippetWindow text k).before.isEmpty = decide (snippetStart text k = 0) := by
  show (text.take (snippetStart text k)).isEmpty = _
  by_cases hzero : snippetStart text k = 0
  · rw [hzero]
    rfl
  · have hlt := snippetStart_lt (Nat.pos_of_ne_zero hzero)
    have htext : text ≠ [] := by
      rintro rfl
      exact absurd hlt (Nat.not_lt_zero _)
    simp [hzero, htext]

/-- The end of the text is marked as left out if it was, and also if there is a character
beyond ASCII before the window. -/
theorem marked_after_iff :
    snippetStart text k + byteCount (snippetWindow text k).piece < byteCount text ↔
      (snippetWindow text k).after ≠ [] ∨ isAscii (snippetWindow text k).before = false := by
  have hwhole := congrArg byteCount (snippetWindow text k).whole
  rw [byteCount_append, byteCount_append] at hwhole
  have hascii : byteCount (snippetWindow text k).before = (snippetWindow text k).before.length ↔
      isAscii (snippetWindow text k).before = true := byteCount_eq_length_iff
  have hle := length_le_byteCount (snippetWindow text k).before
  have hlength : (snippetWindow text k).before.length = min (snippetStart text k) text.length :=
    List.length_take
  by_cases hstart : snippetStart text k ≤ text.length
  · have hbefore : (snippetWindow text k).before.length = snippetStart text k := by omega
    by_cases hafter : (snippetWindow text k).after = []
    · rw [hafter, byteCount_nil] at hwhole
      rw [← Bool.not_eq_true, ← hascii]
      simp only [hafter, ne_eq, not_true_eq_false, false_or]
      omega
    · have hpos := byteCount_pos hafter
      simp only [ne_eq, hafter, not_false_eq_true, true_or, iff_true]
      omega
  · -- the window starts behind the end of the text, which is possible with many bytes only
    have hlt : snippetStart text k < byteCount text := snippetStart_lt (by omega)
    have hpiece : (snippetWindow text k).piece = [] := by
      show (text.drop (snippetStart text k)).take snippetSize = []
      rw [List.drop_of_length_le (by omega), List.take_nil]
    have hafter : (snippetWindow text k).after = [] := by
      have hdrop : text.drop (snippetStart text k) = [] := List.drop_of_length_le (by omega)
      show (text.drop (snippetStart text k)).drop snippetSize = []
      rw [hdrop, List.drop_nil]
    rw [hpiece, hafter, byteCount_nil] at hwhole
    rw [hpiece, byteCount_nil, ← Bool.not_eq_true, ← hascii]
    simp only [hafter, ne_eq, not_true_eq_false, false_or]
    omega

/-- A snippet is its window on one line, with the marks. -/
theorem snippet_eq (text : List Char) (k : Nat) :
    snippet (.ofList text) (byteCount (text.take k))
      = mark (!(snippetWindow text k).before.isEmpty) ++
          oneLine (.ofList (snippetWindow text k).piece) ++
          mark (!(snippetWindow text k).after.isEmpty ||
            !isAscii (snippetWindow text k).before) := by
  have hbefore : (if snippetStart text k > 0 then ellipsis else "")
      = mark (!(snippetWindow text k).before.isEmpty) := by
    rw [isEmpty_before, mark]
    simp [Nat.pos_iff_ne_zero]
  have hafter : (if snippetStart text k + byteCount (snippetWindow text k).piece
        < byteCount text then ellipsis else "")
      = mark (!(snippetWindow text k).after.isEmpty ||
          !isAscii (snippetWindow text k).before) := by
    rw [mark]
    refine if_congr (marked_after_iff.trans ?_) rfl rfl
    simp
  rw [snippet, String.toList_ofList]
  show oneLine ((if snippetStart text k > 0 then ellipsis else "") ++
    String.ofList (snippetWindow text k).piece ++
      if snippetStart text k + byteCount (snippetWindow text k).piece < byteCount text
        then ellipsis else "") = _
  rw [hbefore, hafter, oneLine_append, oneLine_append, oneLine_mark, oneLine_mark]

/-- The character at the place of the error is in the window exactly if the characters
before it have at most twenty bytes more than there are of them. -/
theorem snippetWindow_has_iff (hk : k ≤ text.length) :
    (snippetWindow text k).Has k ↔ k < text.length ∧ byteCount (text.take k) ≤ k + snippetLead := by
  have hbytes := length_le_byteCount (text.take k)
  rw [List.length_take, Nat.min_eq_left hk] at hbytes
  have hbefore : (snippetWindow text k).before.length = min (snippetStart text k) text.length :=
    List.length_take
  have hpiece : (snippetWindow text k).piece.length
      = min snippetSize (text.length - snippetStart text k) := by
    show ((text.drop (snippetStart text k)).take snippetSize).length = _
    rw [List.length_take, List.length_drop]
  rw [Window.Has, hbefore, hpiece]
  unfold snippetStart snippetLead snippetSize
  omega

/-- **What the snippet of an error shows.**  For any text and any place in it, given by the
bytes before it, the context of an error is a piece of the text on one line, of at most a
hundred characters, with marks.

* The mark before the piece is there exactly if text before it was left out.
* The mark after the piece is there exactly if text after it was left out, or some
  character before it is beyond ASCII.
* The piece has the character at the place exactly if there is one and the characters
  before it take at most twenty bytes more than there are of them.

So where the characters before the place are ASCII, the snippet shows the place as it is
meant to. -/
theorem place_is_shown_iff (kind : SyntaxError.Kind) (message : String) (text : List Char) (k : Nat)
    (hk : k ≤ text.length) :
    let offset := byteCount (text.take k)
    ∃ context, (SyntaxError.inContext kind message (.ofList text) offset).context = some context ∧
      (∃ w : Window text, w.piece.length ≤ snippetSize ∧
        (w.Has k ↔ k < text.length ∧ offset ≤ k + snippetLead) ∧
        context = mark (!w.before.isEmpty) ++ oneLine (.ofList w.piece) ++
          mark (!w.after.isEmpty || !isAscii w.before)) ∧
      (isAscii (text.take k) = true → ShowsPlace text k context) := by
  intro offset
  have hsize : (snippetWindow text k).piece.length ≤ snippetSize := List.length_take_le ..
  have hhas := snippetWindow_has_iff hk
  refine ⟨_, rfl, ⟨snippetWindow text k, hsize, hhas, snippet_eq text k⟩, fun hascii => ?_⟩
  have hoffset : byteCount (text.take k) = k := by
    rw [byteCount_eq_length_iff.2 hascii, List.length_take, Nat.min_eq_left hk]
  have hbefore : isAscii (snippetWindow text k).before = true := by
    -- the window starts before the place, so what is before the window is before the place
    have hle : snippetStart text k ≤ k := by
      rw [snippetStart, hoffset]
      exact Nat.sub_le k _
    have htake : (text.take k).take (snippetStart text k) = (snippetWindow text k).before := by
      rw [List.take_take, Nat.min_eq_left hle]
      rfl
    rw [← htake]
    exact List.all_eq_true.2 fun c hc => List.all_eq_true.1 hascii c (List.mem_of_mem_take hc)
  refine ⟨snippetWindow text k, hsize, fun hlt => hhas.2 ⟨hlt, ?_⟩, ?_⟩
  · rw [hoffset]
    exact Nat.le_add_right k _
  · rw [snippet_eq, hbefore, Bool.not_true, Bool.or_false]

/-- One character beyond ASCII stands before the window.  The place is shown, and the end of
the text is marked as left out although it is in the window. -/
theorem place_is_shown_iff_accent :
    let text := "éaaaaaaaaaaaaaaaaaaaaa]".toList
    22 ≤ text.length ∧
      ∃ w : Window text, w.Has 22 ∧ w.piece.length ≤ snippetSize ∧
        "[...]aaaaaaaaaaaaaaaaaaa][...]" = mark (!w.before.isEmpty) ++ oneLine (.ofList w.piece) ++
          mark (!w.after.isEmpty || !isAscii w.before) := by
  intro text
  have hk : 22 ≤ text.length := by decide
  obtain ⟨context, hcontext, ⟨w, hsize, hhas, htext⟩, -⟩ :=
    place_is_shown_iff .invalid "" text 22 hk
  have hplace : w.Has 22 := hhas.2 ⟨by decide, by decide⟩
  have hshown : (SyntaxError.inContext .invalid "" (.ofList text) (byteCount (text.take 22))).context
      = some "[...]aaaaaaaaaaaaaaaaaaa][...]" := by decide
  obtain rfl := Option.some.inj (hshown.symm.trans hcontext)
  exact ⟨hk, w, hplace, hsize, htext⟩

/-- Twelve characters of four bytes each stand before a bracket that is out of place.  The
report is about the bracket, but its context shows none of the text. -/
theorem place_is_not_shown :
    let input := "[😀😀😀😀😀😀😀😀😀😀😀😀 )y"
    readOne input = .error ⟨.invalid, "unexpected ')'", some "[...][...]", some ")", none⟩ ∧
      input.toList[14]? = some ')' ∧ ¬ ShowsPlace input.toList 14 "[...][...]" := by
  intro input
  refine ⟨by simp only [input]; rfl, by decide, ?_⟩
  rintro ⟨⟨before, piece, after, hwhole⟩, -, hhas, htext⟩
  obtain ⟨hbefore, hend⟩ := hhas (by decide)
  have hpiece : ')' ∈ piece := by
    have hplace : (before ++ piece ++ after)[14]? = some ')' := by
      rw [hwhole]
      decide
    rw [List.append_assoc, List.getElem?_append_right hbefore,
      List.getElem?_append_left (Nat.sub_lt_left_of_lt_add hbefore hend)] at hplace
    exact List.mem_of_getElem? hplace
  have hshown : ')' ∈ "[...][...]".toList := by
    rw [htext, String.toList_append, String.toList_append]
    exact List.mem_append_left _
      (List.mem_append_right _ (mem_oneLine hpiece (by decide) (by decide)))
  exact absurd hshown (by decide)

end Primer.Text
