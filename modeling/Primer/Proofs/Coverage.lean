/-
Primer/Proofs/Coverage.lean

The items of a text cover it.

`Tiles before rest items unread` lays the items side by side on the text `rest`, which
comes after the text `before`.  Each item has a stretch of its own.  Ahead of the
stretch there is atmosphere, and the stretch read by itself gives this item and
nothing else.  Only after a fault can there be text that is not read.

* Reading does not depend on where a text stands, so what comes after a whole datum
  has items of its own, moved behind it (`Item.ofText_append`).
* The tokens of a datum are those of one stretch of the text (`exists_cut`).
-/
import Primer.Proofs.Grammar
import Primer.Proofs.Offsets

namespace Primer

/-! ### Items behind a text -/

def Fault.behind (x : List Char) (f : Fault) : Fault := ⟨f.obstacle, x.length + f.offset⟩

/-- An item of a text, where the text `x` stands in front of it. -/
def Item.behind (x : List Char) (i : Item) : Item :=
  ⟨i.start.behind x, x.length + i.stop, i.oversized.map (·.behind x), i.body.mapError (·.behind x)⟩

theorem Fault.behind_behind (x y : List Char) (f : Fault) :
    (f.behind y).behind x = f.behind (x ++ y) := by
  simp only [behind, List.length_append, Nat.add_assoc]

theorem Item.behind_behind (x y : List Char) (i : Item) :
    (i.behind y).behind x = i.behind (x ++ y) := by
  obtain ⟨start, stop, oversized, body⟩ := i
  simp only [behind, Position.behind_behind, Option.map_map, List.length_append, Nat.add_assoc]
  congr 1
  · cases oversized <;> simp [Fault.behind_behind]
  · cases body <;> simp [Except.mapError, Fault.behind_behind]

def Progress.behind (x : List Char) : Progress → Progress
  | .between => .between
  | .within p stack oversized => .within (p.behind x) stack (oversized.map (·.behind x))
  | .stopped => .stopped

theorem Token.stop_behind (x : List Char) (t : Token) : (t.behind x).stop = x.length + t.stop :=
  Nat.add_assoc _ _ _

theorem Token.oversized?_behind (x : List Char) (t : Token) :
    (t.behind x).oversized? = t.oversized?.map (·.behind x) := by
  obtain ⟨lexeme, position⟩ := t
  cases lexeme with
  | atom text =>
    simp only [oversized?, behind]
    split <;> rfl
  | _ => rfl

theorem Pending.accept_behind (x : List Char) (t : Token) (stack : List Pending) :
    accept (t.behind x) stack = (accept t stack).mapError (·.behind x) := by
  obtain ⟨lexeme, position⟩ := t
  cases lexeme with
  | closing shape =>
    cases stack with
    | nil => rfl
    | cons top stack =>
      cases top with
      | quote => rfl
      | list opened reversed =>
        simp only [accept, close, Token.behind]
        split <;> rfl
  | quote =>
    simp only [accept, begin, Token.behind]
    split
    · rfl
    · split <;> rfl
  | _ =>
    simp only [accept, begin, Token.behind]
    split <;> rfl

namespace Reading

/-- A reading where the text `x`, with the items `before`, stands in front. -/
def behind (x : List Char) (before : List Item) (r : Reading) : Reading :=
  ⟨r.items.map (·.behind x) ++ before, r.progress.behind x⟩

variable (x : List Char) (before : List Item)

theorem take_behind (items : List Item) (p : Position) (stack : List Pending)
    (oversized : Option Fault) (t : Token) :
    take (items.map (·.behind x) ++ before) (p.behind x) stack (oversized.map (·.behind x))
        (t.behind x)
      = (take items p stack oversized t).behind x before := by
  have hor : (oversized.map (·.behind x)).or (t.oversized?.map (·.behind x))
      = (oversized.or t.oversized?).map (·.behind x) := by
    cases oversized <;> rfl
  simp only [take, Pending.accept_behind, Token.oversized?_behind, Token.stop_behind, hor]
  cases Pending.accept t stack with
  | error fault => rfl
  | ok settled => cases settled <;> rfl

theorem step_behind (r : Reading) (t : Token) :
    (r.behind x before).step (t.behind x) = (r.step t).behind x before := by
  obtain ⟨items, progress⟩ := r
  cases progress with
  | between => exact take_behind x before items t.position [] none t
  | within p stack oversized => exact take_behind x before items p stack oversized t
  | stopped => rfl

theorem foldl_behind (r : Reading) (ts : List Token) :
    (ts.map (·.behind x)).foldl step (r.behind x before) = (ts.foldl step r).behind x before := by
  induction ts generalizing r with
  | nil => rfl
  | cons t ts ih => rw [List.map_cons, List.foldl_cons, step_behind, ih, List.foldl_cons]

theorem finish_behind (r : Reading) (size : Nat) :
    (r.behind x before).finish (x.length + size) = (r.finish size).map (·.behind x) ++ before := by
  obtain ⟨items, progress⟩ := r
  cases progress <;> rfl

end Reading

/-- A text that is cut between data has the items of its two parts. -/
theorem Item.ofText_append {x y : List Char} {items : List Item} (h : EndsBefore x y)
    (hx : Reading.ofText x = ⟨items, .between⟩) :
    ofText (x ++ y) = items.reverse ++ (ofText y).map (·.behind x) := by
  have hread : (Token.ofText x).foldl Reading.step .start = Reading.start.behind x items := hx
  rw [ofText, Token.ofText_append h, List.foldl_append, hread, Reading.foldl_behind,
    List.length_append, Reading.finish_behind, List.reverse_append, ← List.map_reverse]
  rfl

/-- The tokens of a datum. -/
theorem Forms.foldl_step {A : List Char → Datum → Prop}
    (hA : ∀ text d, A text d → Datum.ofAtom text = d) {ts : List Token} {d : Datum}
    (hd : Forms A 0 (ts.map Token.lexeme) d) {first last : Token} (hfirst : ts.head? = some first)
    (hlast : ts.getLast? = some last) :
    ts.foldl Reading.step .start
      = ⟨[⟨first.position, last.stop, ts.findSome? Token.oversized?, .ok d⟩], .between⟩ := by
  rw [Reading.start, foldl_between hfirst, hd.arrives hA ts last [] first.position [] none rfl
    hlast rfl, Option.none_or]
  rfl

/-! ### The stretch of a datum -/

theorem Grammar.Begins.length_eq {l : Lexeme} {t rest : List Char} (h : Grammar.Begins l t rest) :
    t.length = l.size + rest.length := by
  cases h <;> simp [Lexeme.size, Nat.add_comm]

/-- The first token of a text, if it is no stray, is that of the text up to its end. -/
theorem exists_cut_first {t : List Char} {first : Token} {more : List Token}
    (h : Token.ofText t = first :: more) (hstray : ∀ c, first.lexeme ≠ .stray c) :
    ∃ x rest, x ++ rest = t ∧ EndsBefore x rest ∧ Token.ofText x = [first] ∧
      first.stop = x.length := by
  obtain ⟨t', ⟨gap, rfl, hgap, hempty, -⟩, ht'⟩ := Grammar.skips_then_starts t
  rw [Token.ofText_append hgap, hempty, List.nil_append] at h
  -- a text that starts with a lexeme has this one for its first token
  have hfirst : ∀ {l r}, Grammar.Starts (some l) t' r → first = Token.behind gap ⟨l, .start⟩ := by
    rintro l r ⟨w, rfl, -, hends, hw⟩
    rw [Token.ofText_append hends, hw] at h
    exact (List.cons.inj h).1.symm
  rcases ht' with rfl | ⟨l, r, hbegins⟩ | ⟨d, r, hstarts⟩
  · cases h
  · obtain rfl := hfirst hbegins.starts
    have hlength := hbegins.length_eq
    obtain ⟨w, rfl, -, hends, hw⟩ := hbegins.starts
    refine ⟨gap ++ w, r, List.append_assoc _ _ _, hgap.append hends, ?_, ?_⟩
    · rw [Token.ofText_append hgap.left, hempty, hw]
      rfl
    · have hsize : l.size = w.length := by
        rw [List.length_append] at hlength
        omega
      rw [Token.stop_behind, List.length_append, ← hsize, Token.stop]
      simp [Token.offset, Position.start]
  · exact absurd (by rw [hfirst hstarts]; rfl) (hstray d)

/-- The first tokens of a text are those of the text up to the end of the last of them. -/
theorem exists_cut {t : List Char} {ts more : List Token} (h : Token.ofText t = ts ++ more)
    (hstray : StrayFree (ts.map Token.lexeme)) :
    ∃ x rest, x ++ rest = t ∧ EndsBefore x rest ∧ Token.ofText x = ts ∧
      ∀ last ∈ ts.getLast?, last.stop = x.length := by
  induction ts using List.reverseRecOn generalizing more with
  | nil => exact ⟨[], t, rfl, .of_mode rfl t, rfl, fun last hlast => absurd hlast (by simp)⟩
  | append_singleton ts last ih =>
    rw [List.map_append] at hstray
    rw [List.append_assoc] at h
    obtain ⟨x, r, rfl, hx, rfl, -⟩ := ih h hstray.left
    -- the next token is the first one of what is left
    rw [Token.ofText_append hx] at h
    obtain ⟨next, more', hr, rfl, -⟩ := List.map_eq_cons_iff.1 (List.append_cancel_left h)
    obtain ⟨y, rest, rfl, hy, hnext, hstop⟩ := exists_cut_first hr fun c hc =>
      hstray.right c (List.mem_singleton.2 hc.symm)
    refine ⟨x ++ y, rest, List.append_assoc _ _ _, hx.append hy, ?_, ?_⟩
    · rw [Token.ofText_append hx.left, hnext]
      rfl
    · intro last hlast
      rw [List.getLast?_concat, Option.mem_some_iff] at hlast
      rw [← hlast, Token.stop_behind, hstop, List.length_append]

/-! ### Tiles -/

/-- The item that starts a text has this stretch of it. -/
structure Stretch (piece : List Char) (item : Item) : Prop where
  nonempty : piece ≠ []
  start : item.start = .start
  stop : item.stop = piece.length

/-- The items of the text `rest`, which comes after the text `before`, side by side.
Each has a stretch of its own behind some atmosphere.  By itself the stretch of a datum
gives this item and nothing else.  After a fault the text that is left is not read. -/
inductive Tiles : List Char → List Char → List Item → List Char → Prop
  | done {before gap : List Char} : Grammar.Atmosphere gap [] → Tiles before gap [] []
  | datum {before gap piece rest unread : List Char} {item : Item} {items : List Item}
      {d : Datum} : Grammar.Atmosphere (gap ++ (piece ++ rest)) (piece ++ rest) →
        Stretch piece item → Item.ofText piece = [item] → item.body = .ok d →
          Tiles (before ++ gap ++ piece) rest items unread →
            Tiles before (gap ++ (piece ++ rest)) (item.behind (before ++ gap) :: items) unread
  | fault {before gap piece unread : List Char} {item : Item} {f : Fault} :
      Grammar.Atmosphere (gap ++ (piece ++ unread)) (piece ++ unread) → Stretch piece item →
        Item.ofText (piece ++ unread) = [item] → item.body = .error f →
          Tiles before (gap ++ (piece ++ unread)) [item.behind (before ++ gap)] unread

/-- A text that does not start with atmosphere has its first token at its start. -/
theorem position_of_head? {t r : List Char} {l : Lexeme} (h : Grammar.Starts (some l) t r)
    {first : Token} (hfirst : (Token.ofText t).head? = some first) : first.position = .start := by
  obtain ⟨w, rfl, -, hends, hw⟩ := h
  rw [Token.ofText_append hends, hw] at hfirst
  obtain rfl : _ = first := Option.some.inj hfirst
  rfl

/-- A text that does not start with atmosphere has its first item at its start: a datum,
before the items of what comes after it, or a fault, which is the last item. -/
theorem exists_stretch {t r : List Char} {l : Lexeme} (h : Grammar.Starts (some l) t r) :
    (∃ piece rest item d, piece ++ rest = t ∧ Stretch piece item ∧ Item.ofText piece = [item] ∧
      item.body = .ok d ∧ Item.ofText t = item :: (Item.ofText rest).map (·.behind piece)) ∨
    ∃ piece rest item f, piece ++ rest = t ∧ Stretch piece item ∧ Item.ofText t = [item] ∧
      item.body = .error f := by
  have hne : t ≠ [] := by
    rintro rfl
    exact Nat.not_lt_zero _ h.length_lt
  have hposition : ∀ {first}, (Token.ofText t).head? = some first → first.position = .start :=
    fun hfirst => position_of_head? h hfirst
  obtain ⟨pieces, hpieces⟩ := exists_pieces exists_readAs t.length (Token.ofText t)
  have hitems := hpieces.items_eq fun _ _ h => h
  generalize hts : Token.ofText t = ts at hpieces hposition
  cases hpieces with
  | nil =>
    have hlexemes := h.lexemes_eq
    rw [lexemes, hts] at hlexemes
    cases hlexemes
  | @datum ts more first last d pieces hd hfirst hlast _ =>
    obtain ⟨piece, rest, rfl, hends, htokens, hstop⟩ :=
      exists_cut hts (Grammar.strayFree_of_forms hd)
    have hread := hd.foldl_step (fun _ _ h => h) hfirst hlast
    rw [← htokens] at hread
    have hpiece : piece ≠ [] := by
      rintro rfl
      rw [← htokens] at hfirst
      cases hfirst
    refine .inl ⟨piece, rest, _, d, rfl, ⟨hpiece, ?_, hstop last hlast⟩, ?_, rfl,
      Item.ofText_append hends hread⟩
    · exact hposition (by rw [List.head?_append, hfirst, Option.some_or])
    · rw [Item.ofText, hread]
      rfl
  | unfinished _ hfirst =>
    exact .inr ⟨t, [], _, _, List.append_nil t, ⟨hne, hposition hfirst, rfl⟩, hitems, rfl⟩
  | @refused ts more first refused opened f _ _ hfirst =>
    have hmem : refused ∈ Token.ofText t := by
      rw [hts]
      exact List.mem_append_right ts List.mem_cons_self
    have hlength : (t.take refused.stop).length = refused.stop :=
      List.length_take_of_le (stop_le_of_mem hmem)
    have hpos : 0 < refused.stop :=
      Nat.lt_add_left _ (size_pos_of_mem_lexemes (List.mem_map_of_mem hmem))
    have hpiece : t.take refused.stop ≠ [] := by
      refine List.ne_nil_of_length_pos ?_
      rw [hlength]
      exact hpos
    refine .inr ⟨t.take refused.stop, t.drop refused.stop, _, f, List.take_append_drop _ _,
      ⟨hpiece, ?_, hlength.symm⟩, hitems, rfl⟩
    exact hposition (by rw [List.append_cons, List.head?_append, hfirst, Option.some_or])

theorem exists_tiles (before text : List Char) :
    ∃ unread, Tiles before text ((Item.ofText text).map (·.behind before)) unread := by
  induction hn : text.length using Nat.strongRecOn generalizing before text with
  | ind n ih =>
    obtain ⟨t, ⟨gap, rfl, hgap, hempty, hatm⟩, ht⟩ := Grammar.skips_then_starts text
    have hitems : Item.ofText (gap ++ t) = (Item.ofText t).map (·.behind gap) := by
      refine @Item.ofText_append gap t [] hgap ?_
      rw [Reading.ofText, hempty]
      rfl
    have hbehind : (Item.behind before) ∘ (Item.behind gap) = Item.behind (before ++ gap) :=
      funext fun i => i.behind_behind before gap
    rw [hitems, List.map_map, hbehind]
    by_cases hnil : t = []
    · subst hnil
      rw [List.append_nil] at hatm ⊢
      exact ⟨[], .done hatm⟩
    obtain ⟨l, r, hstarts⟩ : ∃ l r, Grammar.Starts (some l) t r := by
      rcases ht with hnil' | ⟨l, r, hbegins⟩ | ⟨d, r, hstarts⟩
      · exact absurd hnil' hnil
      · exact ⟨l, r, hbegins.starts⟩
      · exact ⟨_, r, hstarts⟩
    rcases exists_stretch hstarts with ⟨piece, rest, item, d, rfl, hstretch, hpiece, hd, hall⟩ |
      ⟨piece, rest, item, f, rfl, hstretch, hall, hf⟩
    · have hshorter : rest.length < n := by
        have hpos := List.length_pos_of_ne_nil hstretch.nonempty
        simp only [List.length_append] at hn
        omega
      obtain ⟨unread, htiles⟩ := ih rest.length hshorter (before ++ gap ++ piece) rest rfl
      have hbehind' : (Item.behind (before ++ gap)) ∘ (Item.behind piece)
          = Item.behind (before ++ gap ++ piece) :=
        funext fun i => i.behind_behind (before ++ gap) piece
      rw [hall, List.map_cons, List.map_map, hbehind']
      exact ⟨unread, .datum hatm hstretch hpiece hd htiles⟩
    · rw [hall]
      exact ⟨rest, .fault hatm hstretch hall hf⟩

theorem Stretch.line_eq {piece : List Char} {item : Item} (h : Stretch piece item)
    (x rest : List Char) : (item.behind x).start.line
      = 1 + ((x ++ rest).take (item.behind x).start.offset).count '\n' := by
  have hstart : (item.behind x).start = ⟨x.length, x.count '\n' + 1⟩ := by
    rw [Item.behind, h.start]
    rfl
  rw [hstart, List.take_left, Nat.add_comm]

namespace Tiles

variable {before rest unread : List Char} {items : List Item}

theorem length_le (h : Tiles before rest items unread) : items.length ≤ rest.length := by
  induction h with
  | done => exact Nat.zero_le _
  | datum _ hstretch _ _ _ ih =>
    have hpos := List.length_pos_of_ne_nil hstretch.nonempty
    simp only [List.length_cons, List.length_append]
    omega
  | fault _ hstretch =>
    have hpos := List.length_pos_of_ne_nil hstretch.nonempty
    simp only [List.length_cons, List.length_nil, List.length_append]
    omega

/-- The line of an item is that of its first character. -/
theorem line_eq (h : Tiles before rest items unread) {item : Item} (hitem : item ∈ items) :
    item.start.line = 1 + ((before ++ rest).take item.start.offset).count '\n' := by
  induction h with
  | done => cases hitem
  | @datum before gap piece rest _ _ _ _ _ hstretch _ _ _ ih =>
    rcases List.mem_cons.1 hitem with rfl | hitem
    · rw [← List.append_assoc]
      exact hstretch.line_eq _ _
    · have hline := ih hitem
      rwa [List.append_assoc, List.append_assoc] at hline
  | fault _ hstretch =>
    obtain rfl := List.mem_singleton.1 hitem
    rw [← List.append_assoc]
    exact hstretch.line_eq _ _

end Tiles

theorem Item.behind_nil (i : Item) : i.behind [] = i := by
  obtain ⟨start, stop, oversized, body⟩ := i
  cases oversized <;> cases body <;> simp [behind, Position.behind, Fault.behind, Except.mapError]

end Primer
