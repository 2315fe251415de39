/-
Primer/Proofs/Grammar.lean

The grammar of data in a text, character by character.

`Derives depth t p rest` says that a text `t` starts with the phrase `p` and goes on
with `rest`, where `depth` lists and quote marks are open around it.  Between data
there may be `Atmosphere`: layout and comments.  The grammar knows neither tokens nor
a stack, and what an atom denotes is said without the functions that read it
(`AtomDenotes`).

The reader accepts exactly the texts of this grammar, each as the one datum that it
denotes (`readOne_eq_ok_iff_denotes`).  The way from one to the other goes over the
lexemes of a text, from which atmosphere has gone:

* each piece of a text, an atom, a bracket, a quote mark or a comment, gives its own
  lexeme or none, and then the lexemes of the rest (`Begins.lexemes_eq`,
  `Atmosphere.lexemes_eq`), so a derivation gives lexemes that denote the datum
  (`Derives.reads`);
* a text without strays either begins with the piece that gives its first lexeme, or
  with atmosphere (`atmosphere_then_begins`), so lexemes that denote a datum give a
  derivation (`located_of_reads`).
-/
import Primer.Proofs.Cutting

namespace Primer

/-! ### The grammar -/

namespace Grammar

/-- The quote mark. -/
def quoteMark : Char := Char.ofNat 39

/-- One or more decimal digits. -/
def IsDigits (ds : List Char) : Prop := ds ≠ [] ∧ ∀ c ∈ ds, c.isDigit = true

/-- A numeral and the integer that it denotes: at most one sign, then digits. -/
inductive Numeral : List Char → Int → Prop
  | bare {ds : List Char} : IsDigits ds → Numeral ds (Nat.ofDigitChars 10 ds 0)
  | plus {ds : List Char} : IsDigits ds → Numeral ('+' :: ds) (Nat.ofDigitChars 10 ds 0)
  | minus {ds : List Char} : IsDigits ds →
      Numeral ('-' :: ds) (-(Nat.ofDigitChars 10 ds 0 : Int))

/-- An atom and the datum that it denotes.  A numeral out of range denotes none. -/
inductive AtomDenotes : List Char → Datum → Prop
  | true : AtomDenotes ['#', 't'] (.bool true)
  | false : AtomDenotes ['#', 'f'] (.bool false)
  | number {text : List Char} {n : Number} : Numeral text n.val → AtomDenotes text (.number n)
  | symbol {text : List Char} : text ≠ ['#', 't'] → text ≠ ['#', 'f'] →
      (∀ i, ¬ Numeral text i) → AtomDenotes text (.symbol (String.ofList text))

/-- Where an atom ends: it takes in all it can. -/
def EndsAtom (rest : List Char) : Prop := ∀ c ∈ rest.head?, Text.isDelimiter c = true

/-- Where a comment ends. -/
inductive EndsLine : List Char → Prop
  | text : EndsLine []
  | feed {rest : List Char} : EndsLine ('\n' :: rest)
  | carriage {rest : List Char} : EndsLine ('\r' :: '\n' :: rest)

/-- What may stand between data: any amount of layout and of comments. -/
inductive Atmosphere : List Char → List Char → Prop
  | nil {rest : List Char} : Atmosphere rest rest
  | layout {c : Char} {t rest : List Char} : c ∈ [' ', '\t', '\r', '\n'] → Atmosphere t rest →
      Atmosphere (c :: t) rest
  | comment {body t rest : List Char} : (∀ c ∈ body, c ≠ '\r' ∧ c ≠ '\n') → EndsLine t →
      Atmosphere t rest → Atmosphere (';' :: (body ++ t)) rest

/-- What a text can start with. -/
inductive Phrase where
  | datum (d : Datum)
  /-- some data and the bracket that closes the list they are in -/
  | items (shape : Bracket) (ds : List Datum)

/-- A text that starts with a phrase, under `depth` lists and quote marks, and what
comes after the phrase. -/
inductive Derives : Nat → List Char → Phrase → List Char → Prop
  | atom {depth : Nat} {text rest : List Char} {d : Datum} : depth < 256 → IsAtom text →
      EndsAtom rest → AtomDenotes text d → Derives depth (text ++ rest) (.datum d) rest
  | quote {depth : Nat} {t t' rest : List Char} {d : Datum} : depth < 256 → Atmosphere t t' →
      Derives (depth + 1) t' (.datum d) rest →
        Derives depth (quoteMark :: t) (.datum (.list [.symbol "quote", d])) rest
  | list {depth : Nat} {t rest : List Char} {shape : Bracket} {ds : List Datum} : depth < 256 →
      Derives (depth + 1) t (.items shape ds) rest →
        Derives depth (shape.opening :: t) (.datum (.list ds)) rest
  | close {depth : Nat} {t rest : List Char} {shape : Bracket} :
      Atmosphere t (shape.closing :: rest) → Derives depth t (.items shape []) rest
  | item {depth : Nat} {t t' t'' rest : List Char} {shape : Bracket} {d : Datum}
      {ds : List Datum} : Atmosphere t t' → Derives depth t' (.datum d) t'' →
        Derives depth t'' (.items shape ds) rest →
          Derives depth t (.items shape (d :: ds)) rest

/-- A whole text: one datum with atmosphere around it. -/
def Denotes (text : List Char) (d : Datum) : Prop :=
  ∃ t rest, Atmosphere text t ∧ Derives 0 t (.datum d) rest ∧ Atmosphere rest []

/-! ### Atoms -/

theorem allDigits_iff {ds : List Char} : Number.allDigits ds = true ↔ IsDigits ds := by
  simp [Number.allDigits, IsDigits, Number.isDigit_eq]

theorem IsDigits.head_ne {c d : Char} {ds : List Char} (h : IsDigits (c :: ds))
    (hd : d.isDigit = false) : c ≠ d := by
  rintro rfl
  rw [h.2 c List.mem_cons_self] at hd
  cases hd

theorem numeral?_eq_some_iff {text : List Char} {i : Int} :
    Number.numeral? text = some i ↔ Numeral text i := by
  constructor
  · intro h
    unfold Number.numeral? at h
    split at h
    all_goals
      simp only [Option.ite_none_right_eq_some, Number.digitsValue_eq_ofDigitChars, allDigits_iff,
        Option.some.injEq] at h
      obtain ⟨hdigits, rfl⟩ := h
    · exact .plus hdigits
    · exact .minus hdigits
    · exact .bare hdigits
  · intro h
    cases h with
    | bare hdigits =>
      -- the first character is a digit, so it is neither of the signs
      obtain ⟨c, ds, rfl⟩ := List.exists_cons_of_ne_nil hdigits.1
      rw [Number.numeral?.eq_3 _ (fun _ heq => hdigits.head_ne (by decide) (List.cons.inj heq).1)
        fun _ heq => hdigits.head_ne (by decide) (List.cons.inj heq).1,
        if_pos (allDigits_iff.2 hdigits), Number.digitsValue_eq_ofDigitChars]
    | plus hdigits =>
      rw [Number.numeral?.eq_1, if_pos (allDigits_iff.2 hdigits),
        Number.digitsValue_eq_ofDigitChars]
    | minus hdigits =>
      rw [Number.numeral?.eq_2, if_pos (allDigits_iff.2 hdigits),
        Number.digitsValue_eq_ofDigitChars]

theorem numeral?_eq_none_iff {text : List Char} :
    Number.numeral? text = none ↔ ∀ i, ¬ Numeral text i := by
  simp only [← numeral?_eq_some_iff, Option.eq_none_iff_forall_ne_some, ne_eq]

/-- A numeral is read as a number, if there is one. -/
theorem ofAtom_of_numeral {text : List Char} {i : Int} (h : Numeral text i) :
    Datum.ofAtom text = (Number.ofInt? i).elim (.symbol (String.ofList text)) .number := by
  have hsome := numeral?_eq_some_iff.2 h
  have hne : ∀ other, Number.numeral? other = none → text ≠ other := by
    rintro _ hnone rfl
    rw [hsome] at hnone
    cases hnone
  rw [Datum.ofAtom, if_neg (hne _ (by decide)), if_neg (hne _ (by decide)), hsome,
    Option.bind_some]
  cases Number.ofInt? i <;> rfl

/-- What an atom is read as. -/
theorem atomDenotes_iff {text : List Char} {d : Datum} :
    AtomDenotes text d ↔ isOversized text = false ∧ Datum.ofAtom text = d := by
  constructor
  · intro h
    cases h with
    | true => exact ⟨by decide, rfl⟩
    | false => exact ⟨by decide, rfl⟩
    | @number text n hnumeral =>
      refine ⟨by simp [isOversized, numeral?_eq_some_iff.2 hnumeral], ?_⟩
      rw [ofAtom_of_numeral hnumeral, Number.ofInt?_val]
      rfl
    | symbol htrue hfalse hnone =>
      have hnone := numeral?_eq_none_iff.2 hnone
      refine ⟨by simp [isOversized, hnone], ?_⟩
      rw [Datum.ofAtom, if_neg htrue, if_neg hfalse, hnone]
      rfl
  · rintro ⟨hsize, rfl⟩
    unfold Datum.ofAtom
    split
    · next h => exact h ▸ .true
    · next htrue =>
      split
      · next h => exact h ▸ .false
      · next hfalse =>
        cases hnumeral : Number.numeral? text with
        | none => exact .symbol htrue hfalse (numeral?_eq_none_iff.1 hnumeral)
        | some i =>
          simp only [isOversized, hnumeral] at hsize
          obtain ⟨n, hn⟩ := Option.isSome_iff_exists.1 (by simpa using hsize)
          rw [Option.bind_some, hn]
          rw [← Number.ofInt?_eq_some_iff.1 hn] at hnumeral
          exact .number (numeral?_eq_some_iff.1 hnumeral)

/-! ### How a text starts -/

/-- A text that starts with the spelling of a lexeme, or with something that makes none,
and what comes after it. -/
def Starts (l : Option Lexeme) (t rest : List Char) : Prop :=
  ∃ w, w ++ rest = t ∧ w ≠ [] ∧ EndsBefore w rest ∧
    Token.ofText w = l.toList.map fun lexeme => ⟨lexeme, .start⟩

theorem Starts.lexemes_eq {l : Option Lexeme} {t rest : List Char} (h : Starts l t rest) :
    lexemes t = l.toList ++ lexemes rest := by
  obtain ⟨w, rfl, -, hends, hw⟩ := h
  rw [lexemes_append hends, lexemes, hw, List.map_map]
  cases l <;> rfl

theorem Starts.length_lt {l : Option Lexeme} {t rest : List Char} (h : Starts l t rest) :
    rest.length < t.length := by
  obtain ⟨w, rfl, hw, -, -⟩ := h
  have hpos := List.length_pos_of_ne_nil hw
  rw [List.length_append]
  omega

/-- A character that is a token by itself, or none. -/
theorem starts_cons {c : Char} {l : Option Lexeme} (h : ∀ p, Scan.opens p c = (.between, l))
    (t : List Char) : Starts l (c :: t) t := by
  have hmode := (Scan.enter_eq_of_opens (s := .start) (h _) []).1
  refine ⟨[c], rfl, by simp, .of_mode (x := [c]) hmode t, ?_⟩
  show (Scan.start.enter c []).finish.reverse = _
  rw [Scan.enter, h]
  cases l <;> rfl

theorem starts_layout {c : Char} (hc : c ∈ [' ', '\t', '\r', '\n']) (t : List Char) :
    Starts none (c :: t) t := by
  have hlayout : Text.isLayout c = true := by simpa [Text.isLayout, or_assoc] using hc
  exact starts_cons (fun p => by simp [Scan.opens, hlayout]) t

theorem lexemes_layout {c : Char} (hc : c ∈ [' ', '\t', '\r', '\n']) (t : List Char) :
    lexemes (c :: t) = lexemes t :=
  (starts_layout hc t).lexemes_eq

theorem starts_atom {text rest : List Char} (htext : IsAtom text) (hrest : EndsAtom rest) :
    Starts (some (.atom text)) (text ++ rest) rest := by
  obtain ⟨q, hq⟩ := Scan.foldl_atom htext (s := .start) rfl
  refine ⟨text, rfl, htext.nonempty, .of_settled ?_ hrest, ?_⟩
  · rw [hq]
    exact .inr ⟨_, _, rfl⟩
  · rw [Token.ofText, hq]
    simp [Scan.finish, Scan.atomToken, Scan.start]

theorem lexemes_atom {text rest : List Char} (htext : IsAtom text) (hrest : EndsAtom rest) :
    lexemes (text ++ rest) = .atom text :: lexemes rest :=
  (starts_atom htext hrest).lexemes_eq

/-! ### Comments -/

/-- A comment that has not come to the end of its line. -/
theorem foldl_comment {body : List Char} (hbody : ∀ c ∈ body, c ≠ '\r' ∧ c ≠ '\n') :
    ∃ q, (';' :: body).foldl Scan.step .start = ⟨.comment .start, q, []⟩ := by
  have hgo : ∀ q, ∃ q', body.foldl Scan.step ⟨.comment .start, q, []⟩
      = ⟨.comment .start, q', []⟩ := by
    induction body with
    | nil => exact fun q => ⟨q, rfl⟩
    | cons c body ih =>
      intro q
      obtain ⟨hcr, hlf⟩ := hbody c List.mem_cons_self
      have hstep : Scan.step ⟨.comment .start, q, []⟩ c = ⟨.comment .start, q.advance c, []⟩ := by
        simp [Scan.step, hcr, hlf]
      rw [List.foldl_cons, hstep]
      exact ih (fun c' hc' => hbody c' (List.mem_cons_of_mem c hc')) _
  exact hgo (Position.start.advance ';')

/-- A comment, and what comes after the end of its line. -/
theorem exists_starts_comment {body t : List Char} (hbody : ∀ c ∈ body, c ≠ '\r' ∧ c ≠ '\n')
    (ht : EndsLine t) :
    ∃ rest, Starts none (';' :: (body ++ t)) rest ∧ lexemes t = lexemes rest ∧
      Atmosphere t rest := by
  obtain ⟨q, hfold⟩ := foldl_comment hbody
  cases ht with
  | text =>
    refine ⟨[], ⟨';' :: body, by simp, by simp, .nil _, ?_⟩, rfl, .nil⟩
    rw [Token.ofText, hfold]
    rfl
  | @feed rest =>
    have hline : (';' :: body ++ ['\n']).foldl Scan.step .start
        = ⟨.between, q.advance '\n', []⟩ := by
      rw [List.foldl_append, hfold]
      rfl
    refine ⟨rest, ⟨';' :: body ++ ['\n'], by simp, by simp, .of_mode (by rw [hline]) rest, ?_⟩,
      lexemes_layout (by simp) rest, .layout (by simp) .nil⟩
    rw [Token.ofText, hline]
    rfl
  | @carriage rest =>
    have hline : (';' :: body ++ ['\r', '\n']).foldl Scan.step .start
        = ⟨.between, (q.advance '\r').advance '\n', []⟩ := by
      rw [List.foldl_append, hfold]
      rfl
    refine ⟨rest, ⟨';' :: body ++ ['\r', '\n'], by simp, by simp,
      .of_mode (by rw [hline]) rest, ?_⟩, ?_, .layout (by simp) (.layout (by simp) .nil)⟩
    · rw [Token.ofText, hline]
      rfl
    · rw [lexemes_layout (by simp), lexemes_layout (by simp)]

theorem lexemes_comment {body t : List Char} (hbody : ∀ c ∈ body, c ≠ '\r' ∧ c ≠ '\n')
    (ht : EndsLine t) : lexemes (';' :: (body ++ t)) = lexemes t := by
  obtain ⟨rest, hstarts, hlexemes, -⟩ := exists_starts_comment hbody ht
  rw [hlexemes]
  exact hstarts.lexemes_eq

/-- A carriage return that ends no line makes the semicolon of its comment a stray. -/
theorem starts_stray {body rest : List Char} (hbody : ∀ c ∈ body, c ≠ '\r' ∧ c ≠ '\n')
    (hrest : '\n' ∉ rest.head?) :
    Starts (some (.stray ';')) (';' :: (body ++ '\r' :: rest)) rest := by
  obtain ⟨q, hfold⟩ := foldl_comment hbody
  have hcarriage : (';' :: body ++ ['\r']).foldl Scan.step .start
      = ⟨.carriage .start, q.advance '\r', []⟩ := by
    rw [List.foldl_append, hfold]
    rfl
  refine ⟨';' :: body ++ ['\r'], by simp, by simp, fun c hc => ?_, ?_⟩
  · have hne : c ≠ '\n' := by
      rintro rfl
      exact hrest hc
    rw [hcarriage]
    simp [Scan.step, Scan.finish, hne]
  · rw [Token.ofText, hcarriage]
    rfl

theorem Atmosphere.lexemes_eq {t rest : List Char} (h : Atmosphere t rest) :
    lexemes t = lexemes rest := by
  induction h with
  | nil => rfl
  | layout hc _ ih => rw [lexemes_layout hc, ih]
  | comment hbody ht _ ih => rw [lexemes_comment hbody ht, ih]

/-! ### From derivations to lexemes -/

/-- A text that begins with the spelling of a lexeme, and what comes after it. -/
inductive Begins : Lexeme → List Char → List Char → Prop
  | opening {shape : Bracket} {rest : List Char} :
      Begins (.opening shape) (shape.opening :: rest) rest
  | closing {shape : Bracket} {rest : List Char} :
      Begins (.closing shape) (shape.closing :: rest) rest
  | quote {rest : List Char} : Begins .quote (quoteMark :: rest) rest
  | atom {text rest : List Char} : IsAtom text → EndsAtom rest →
      Begins (.atom text) (text ++ rest) rest

theorem Begins.starts {l : Lexeme} {t rest : List Char} (h : Begins l t rest) :
    Starts (some l) t rest := by
  cases h with
  | @opening shape rest => exact starts_cons (fun p => by cases shape <;> rfl) rest
  | @closing shape rest => exact starts_cons (fun p => by cases shape <;> rfl) rest
  | quote => exact starts_cons (fun p => rfl) rest
  | atom htext hrest => exact starts_atom htext hrest

theorem Begins.lexemes_eq {l : Lexeme} {t rest : List Char} (h : Begins l t rest) :
    lexemes t = l :: lexemes rest :=
  h.starts.lexemes_eq

/-- Lexemes that denote a phrase. -/
def Phrase.Reads (depth : Nat) (ls : List Lexeme) : Phrase → Prop
  | .datum d => Primer.Reads depth ls d
  | .items shape ds => ∃ items : List (List Lexeme × Datum),
      ls = (items.map (·.1)).flatten ++ [.closing shape] ∧ items.map (·.2) = ds ∧
        ∀ p ∈ items, Primer.Reads depth p.1 p.2

theorem depth_lt_of_reads {depth : Nat} {ls : List Lexeme} {d : Datum} (h : Reads depth ls d) :
    depth < maxNesting := by
  cases h with
  | atom hdepth _ => exact hdepth
  | quote hdepth _ => exact Nat.lt_of_succ_lt hdepth
  | list hdepth _ => exact hdepth

theorem Derives.reads {depth : Nat} {t rest : List Char} {p : Phrase}
    (h : Derives depth t p rest) : ∃ ls, lexemes t = ls ++ lexemes rest ∧ p.Reads depth ls := by
  induction h with
  | @atom depth text rest d hdepth htext hrest hd =>
    obtain ⟨hsize, rfl⟩ := atomDenotes_iff.1 hd
    exact ⟨[.atom text], lexemes_atom htext hrest, .atom hdepth hsize⟩
  | @quote depth t t' rest d _ ht _ ih =>
    obtain ⟨ls, hls, hreads⟩ := ih
    -- the datum after the mark is one level deeper, and it is within the limit
    refine ⟨.quote :: ls, ?_, .quote (depth_lt_of_reads hreads) hreads⟩
    rw [Begins.quote.lexemes_eq, ht.lexemes_eq, hls, List.cons_append]
  | @list depth t rest shape ds hdepth _ ih =>
    obtain ⟨_, hls, items, rfl, rfl, hitems⟩ := ih
    refine ⟨_, ?_, @Reads.list depth shape items hdepth hitems⟩
    rw [Begins.opening.lexemes_eq, hls, List.cons_append]
  | @close depth t rest shape ht =>
    refine ⟨[.closing shape], ?_, [], rfl, rfl, List.forall_mem_nil _⟩
    rw [ht.lexemes_eq, Begins.closing.lexemes_eq, List.singleton_append]
  | @item depth t t' t'' rest shape d ds ht _ _ ih ih' =>
    obtain ⟨ls, hls, hd⟩ := ih
    obtain ⟨_, hls', items, rfl, rfl, hitems⟩ := ih'
    refine ⟨ls ++ ((items.map (·.1)).flatten ++ [.closing shape]), ?_, (ls, d) :: items, ?_, rfl,
      List.forall_mem_cons.2 ⟨hd, hitems⟩⟩
    · rw [ht.lexemes_eq, hls, hls', ← List.append_assoc]
    · simp

/-! ### From lexemes to derivations -/

/-- A text starts with as many characters of a class as there are. -/
theorem exists_run (p : Char → Bool) (t : List Char) : ∃ run rest, run ++ rest = t ∧
    (∀ c ∈ run, p c = true) ∧ ∀ c ∈ rest.head?, p c = false := by
  refine ⟨t.takeWhile p, t.dropWhile p, List.takeWhile_append_dropWhile,
    List.all_eq_true.1 List.all_takeWhile, fun c hc => ?_⟩
  have hnot := List.head?_dropWhile_not p t
  rw [Option.mem_def.1 hc] at hnot
  simpa using hnot

/-- A semicolon begins a comment or is a stray. -/
theorem comment_or_stray (t : List Char) :
    (∃ rest, Starts none (';' :: t) rest ∧ Atmosphere (';' :: t) rest) ∨
      ∃ rest, Starts (some (.stray ';')) (';' :: t) rest := by
  obtain ⟨body, rest, rfl, hin, hout⟩ := exists_run (fun c => c != '\r' && c != '\n') t
  have hbody : ∀ c ∈ body, c ≠ '\r' ∧ c ≠ '\n' := fun c hc => by simpa using hin c hc
  have hcomment : EndsLine rest → ∃ rest', Starts none (';' :: (body ++ rest)) rest' ∧
      Atmosphere (';' :: (body ++ rest)) rest' := by
    intro hends
    obtain ⟨rest', hstarts, -, hatm⟩ := exists_starts_comment hbody hends
    exact ⟨rest', hstarts, .comment hbody hends hatm⟩
  cases rest with
  | nil => exact .inl (hcomment .text)
  | cons c rest =>
    have hc : c = '\r' ∨ c = '\n' := by
      have hnot := hout c (by simp)
      grind
    rcases hc with rfl | rfl
    · by_cases hlf : '\n' ∈ rest.head?
      · obtain ⟨_, rfl⟩ := List.head?_eq_some_iff.1 hlf
        exact .inl (hcomment .carriage)
      · exact .inr ⟨rest, starts_stray hbody hlf⟩
    · exact .inl (hcomment .feed)

/-- The atom that starts with a character that begins one. -/
theorem exists_begins_atom {c : Char} {t : List Char} (hc : Text.isDelimiter c = false)
    (hq : c.toNat ≠ 39) : ∃ text rest, Begins (.atom text) (c :: t) rest := by
  obtain ⟨text, rest, rfl, hin, hout⟩ := exists_run (fun c => !Text.isDelimiter c) t
  have htext : IsAtom (c :: text) := by
    refine ⟨by simp, List.forall_mem_cons.2 ⟨hc, fun c' hc' => ?_⟩, by simpa using hq⟩
    simpa using hin c' hc'
  have hrest : EndsAtom rest := fun c' hc' => by simpa using hout c' hc'
  exact ⟨_, _, .atom htext hrest⟩

/-- How a text can start: with a lexeme of the grammar, with atmosphere or with a stray. -/
theorem begins_or_skips (c : Char) (t : List Char) :
    (∃ l rest, Begins l (c :: t) rest) ∨
      (∃ rest, Starts none (c :: t) rest ∧ Atmosphere (c :: t) rest) ∨
        ∃ d rest, Starts (some (.stray d)) (c :: t) rest := by
  by_cases hlayout : c ∈ [' ', '\t', '\r', '\n']
  · exact .inr (.inl ⟨t, starts_layout hlayout t, .layout hlayout .nil⟩)
  by_cases hquote : c.toNat = 39
  · obtain rfl : c = quoteMark := by rw [quoteMark, ← hquote, Char.ofNat_toNat]
    exact .inl ⟨_, _, .quote⟩
  by_cases hdelimiter : Text.isDelimiter c = true
  · by_cases hcomment : c = ';'
    · subst hcomment
      exact .inr ((comment_or_stray t).imp_right fun h => ⟨';', h⟩)
    by_cases hbracket : ∃ shape : Bracket, c = shape.opening ∨ c = shape.closing
    · obtain ⟨shape, rfl | rfl⟩ := hbracket
      · exact .inl ⟨_, _, .opening⟩
      · exact .inl ⟨_, _, .closing⟩
    -- any other delimiter is a stray
    have hlayout' : Text.isLayout c = false := by simpa [Text.isLayout, and_assoc] using hlayout
    have hround : c ≠ '(' ∧ c ≠ ')' :=
      ⟨fun h => hbracket ⟨.round, .inl h⟩, fun h => hbracket ⟨.round, .inr h⟩⟩
    have hsquare : c ≠ '[' ∧ c ≠ ']' :=
      ⟨fun h => hbracket ⟨.square, .inl h⟩, fun h => hbracket ⟨.square, .inr h⟩⟩
    refine .inr (.inr ⟨c, t, starts_cons (fun p => ?_) t⟩)
    simp [Scan.opens, hlayout', hcomment, hround, hsquare, hquote, hdelimiter]
  · obtain ⟨text, rest, hbegins⟩ := exists_begins_atom (t := t) (by simpa using hdelimiter) hquote
    exact .inl ⟨_, _, hbegins⟩

theorem Atmosphere.trans {t t' rest : List Char} (h : Atmosphere t t') (h' : Atmosphere t' rest) :
    Atmosphere t rest := by
  induction h with
  | nil => exact h'
  | layout hc _ ih => exact .layout hc (ih h')
  | comment hbody ht _ ih => exact .comment hbody ht (ih h')

/-- Atmosphere at the start of a text, cut off where a token begins or the text ends. -/
def Skips (t t' : List Char) : Prop :=
  ∃ gap, gap ++ t' = t ∧ EndsBefore gap t' ∧ Token.ofText gap = [] ∧ Atmosphere t t'

theorem Skips.refl (t : List Char) : Skips t t :=
  ⟨[], rfl, .of_mode rfl t, rfl, .nil⟩

theorem Skips.cons {t t' rest : List Char} (hstarts : Starts none t t') (hatm : Atmosphere t t')
    (h : Skips t' rest) : Skips t rest := by
  obtain ⟨w, rfl, -, hends, hw⟩ := hstarts
  obtain ⟨gap, rfl, hends', hgap, hatm'⟩ := h
  refine ⟨w ++ gap, List.append_assoc _ _ _, hends.append hends', ?_, hatm.trans hatm'⟩
  rw [Token.ofText_append hends.left, hw, hgap]
  rfl

theorem Skips.lexemes_eq {t t' : List Char} (h : Skips t t') : lexemes t = lexemes t' := by
  obtain ⟨gap, -, -, -, hatm⟩ := h
  exact hatm.lexemes_eq

/-- Atmosphere comes first, and after it the text ends or a token begins. -/
theorem skips_then_starts (t : List Char) : ∃ t', Skips t t' ∧
    (t' = [] ∨ (∃ l rest, Begins l t' rest) ∨ ∃ d rest, Starts (some (.stray d)) t' rest) := by
  -- on the length of the text, since a comment takes away many characters at once
  induction hn : t.length using Nat.strongRecOn generalizing t with
  | ind n ih =>
    cases t with
    | nil => exact ⟨[], .refl [], .inl rfl⟩
    | cons c t =>
      rcases begins_or_skips c t with hbegins | ⟨rest, hstarts, hatm⟩ | hstray
      · exact ⟨c :: t, .refl _, .inr (.inl hbegins)⟩
      · obtain ⟨t', hskips, ht'⟩ := ih rest.length (hn ▸ hstarts.length_lt) rest rfl
        exact ⟨t', hskips.cons hstarts hatm, ht'⟩
      · exact ⟨c :: t, .refl _, .inr (.inr hstray)⟩

/-- Atmosphere comes first, and after it the text ends or a lexeme begins. -/
theorem atmosphere_then_begins {t : List Char} (h : StrayFree (lexemes t)) :
    Atmosphere t [] ∨ ∃ l t' rest, Atmosphere t t' ∧ Begins l t' rest := by
  obtain ⟨t', hskips, ht'⟩ := skips_then_starts t
  rw [hskips.lexemes_eq] at h
  obtain ⟨gap, -, -, -, hatm⟩ := hskips
  rcases ht' with rfl | ⟨l, rest, hbegins⟩ | ⟨d, rest, hstray⟩
  · exact .inl hatm
  · exact .inr ⟨l, t', rest, hatm, hbegins⟩
  · rw [hstray.lexemes_eq] at h
    exact absurd List.mem_cons_self (h d)

theorem atmosphere_of_lexemes_eq_nil {t : List Char} (h : lexemes t = []) : Atmosphere t [] := by
  rcases atmosphere_then_begins (t := t) (by simp [h, StrayFree]) with
    hend | ⟨l, t', rest, hatm, hbegins⟩
  · exact hend
  · rw [hatm.lexemes_eq, hbegins.lexemes_eq] at h
    cases h

/-- The first lexeme of a text has its place in it. -/
theorem exists_begins_of_lexemes_eq_cons {t : List Char} {l : Lexeme} {ls : List Lexeme}
    (hstray : StrayFree (l :: ls)) (h : lexemes t = l :: ls) :
    ∃ t' rest, Atmosphere t t' ∧ Begins l t' rest ∧ lexemes rest = ls := by
  rcases atmosphere_then_begins (h ▸ hstray) with hend | ⟨l', t', rest, hatm, hbegins⟩
  · rw [hend.lexemes_eq] at h
    cases h
  · rw [hatm.lexemes_eq, hbegins.lexemes_eq] at h
    obtain ⟨rfl, hrest⟩ := List.cons.inj h
    exact ⟨t', rest, hatm, hbegins, hrest⟩

/-- The lexemes of a datum are no strays. -/
theorem strayFree_of_forms {A : List Char → Datum → Prop} {depth : Nat} {ls : List Lexeme}
    {d : Datum} (h : Forms A depth ls d) : StrayFree ls := by
  intro c
  induction h with
  | atom => simp
  | quote _ _ ih => simpa using ih
  | @list depth shape items _ _ ih =>
    simp only [List.mem_cons, List.mem_append, List.mem_flatten, List.mem_map]
    rintro (h | ⟨_, ⟨p, hp, rfl⟩, hmem⟩ | h | h)
    · cases h
    · exact ih p hp hmem
    · cases h
    · cases h

/-- Wherever these lexemes come first in a text, the text starts with this datum. -/
def Located (depth : Nat) (ls : List Lexeme) (d : Datum) : Prop :=
  ∀ {t ls'}, lexemes t = ls ++ ls' → StrayFree (ls ++ ls') →
    ∃ t' rest, Atmosphere t t' ∧ Derives depth t' (.datum d) rest ∧ lexemes rest = ls'

/-- The items of a list, one after the other, and the bracket that closes it. -/
theorem exists_derives_items {depth : Nat} {shape : Bracket}
    {items : List (List Lexeme × Datum)} (hitems : ∀ p ∈ items, Located depth p.1 p.2)
    {t : List Char} {ls' : List Lexeme}
    (h : lexemes t = (items.map (·.1)).flatten ++ .closing shape :: ls')
    (hstray : StrayFree ((items.map (·.1)).flatten ++ .closing shape :: ls')) :
    ∃ rest, Derives depth t (.items shape (items.map (·.2))) rest ∧ lexemes rest = ls' := by
  induction items generalizing t with
  | nil =>
    obtain ⟨t', rest, hatm, hbegins, hrest⟩ := exists_begins_of_lexemes_eq_cons hstray h
    cases hbegins
    exact ⟨rest, .close hatm, hrest⟩
  | cons p items ih =>
    rw [List.map_cons, List.flatten_cons, List.append_assoc] at h hstray
    obtain ⟨t', t'', hatm, hd, ht''⟩ := hitems p List.mem_cons_self h hstray
    obtain ⟨rest, hds, hrest⟩ :=
      ih (fun q hq => hitems q (List.mem_cons_of_mem p hq)) ht'' hstray.right
    exact ⟨rest, .item hatm hd hds, hrest⟩

theorem located_of_reads {depth : Nat} {ls : List Lexeme} {d : Datum} (h : Reads depth ls d) :
    Located depth ls d := by
  induction h with
  | atom hdepth hsize =>
    intro t ls' ht hstray
    obtain ⟨t', rest, hatm, hbegins, hrest⟩ := exists_begins_of_lexemes_eq_cons hstray ht
    cases hbegins with
    | atom htext hends =>
      exact ⟨_, rest, hatm, .atom hdepth htext hends (atomDenotes_iff.2 ⟨hsize, rfl⟩), hrest⟩
  | @quote depth ls d hdepth _ ih =>
    intro t ls' ht hstray
    obtain ⟨t', t'', hatm, hbegins, ht''⟩ := exists_begins_of_lexemes_eq_cons hstray ht
    -- between the quote mark and the datum there may be atmosphere, which the lexemes do not show
    have hstray' : StrayFree (ls ++ ls') := @StrayFree.right [.quote] _ hstray
    obtain ⟨u, rest, hatm', hd, hrest⟩ := ih ht'' hstray'
    cases hbegins
    exact ⟨_, rest, hatm, .quote (Nat.lt_of_succ_lt hdepth) hatm' hd, hrest⟩
  | @list depth shape items hdepth _ ih =>
    intro t ls' ht hstray
    rw [List.cons_append, List.append_assoc, List.singleton_append] at ht hstray
    obtain ⟨t', t'', hatm, hbegins, ht''⟩ := exists_begins_of_lexemes_eq_cons hstray ht
    obtain ⟨rest, hds, hrest⟩ :=
      exists_derives_items ih ht'' (@StrayFree.right [.opening shape] _ hstray)
    cases hbegins
    exact ⟨_, rest, hatm, .list hdepth hds, hrest⟩

theorem reads_iff_denotes {text : List Char} {d : Datum} :
    Reads 0 (lexemes text) d ↔ Denotes text d := by
  constructor
  · intro h
    have hstray : StrayFree (lexemes text ++ []) := by simpa using strayFree_of_forms h.forms
    obtain ⟨t, rest, hatm, hd, hrest⟩ :=
      located_of_reads h (List.append_nil (lexemes text)).symm hstray
    exact ⟨t, rest, hatm, hd, atmosphere_of_lexemes_eq_nil hrest⟩
  · rintro ⟨t, rest, hatm, hd, hend⟩
    obtain ⟨ls, hls, hreads⟩ := hd.reads
    have hnil : lexemes rest = [] := hend.lexemes_eq
    rw [hatm.lexemes_eq, hls, hnil, List.append_nil]
    exact hreads

end Grammar

/-- A text is read as a datum exactly if it is a text of the grammar that denotes this
datum, and a text of the grammar denotes one datum only. -/
theorem readOne_eq_ok_iff_denotes (input : String) :
    (∀ d, readOne input = .ok d ↔ Grammar.Denotes input.toList d) ∧
      ∀ d d', Grammar.Denotes input.toList d → Grammar.Denotes input.toList d' → d = d' := by
  have hread : ∀ d, readOne input = .ok d ↔ Grammar.Denotes input.toList d := fun d =>
    readOne_eq_ok_iff.trans Grammar.reads_iff_denotes
  refine ⟨hread, fun d d' hd hd' => ?_⟩
  have heq : (Except.ok d : Except SyntaxError Datum) = .ok d' :=
    ((hread d).2 hd).symm.trans ((hread d').2 hd')
  exact Except.ok.inj heq

/-- A comment that ends in a carriage return and a line feed, a quote mark before a list in
square brackets, a signed numeral and a quote mark inside an atom. -/
theorem readOne_eq_ok_iff_denotes_comment :
    Grammar.Denotes " ; c\r\n'[+07 a'b]".toList
        (.list [.symbol "quote", .list [.number ⟨7, by decide, by decide⟩, .symbol "a'b"]]) ∧
      ∀ d, Grammar.Denotes " ; c\r\n'[+07 a'b]".toList d →
        .list [.symbol "quote", .list [.number ⟨7, by decide, by decide⟩, .symbol "a'b"]] = d := by
  obtain ⟨hread, hunique⟩ := readOne_eq_ok_iff_denotes " ; c\r\n'[+07 a'b]"
  have hdenotes := (hread (.list [.symbol "quote",
    .list [.number ⟨7, by decide, by decide⟩, .symbol "a'b"]])).1 rfl
  exact ⟨hdenotes, fun d hd => hunique _ d hdenotes hd⟩

end Primer
