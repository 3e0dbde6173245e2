import Script.Proofs.Printing.Basic
import Script.Token.Stream

/-!
# Reading what was written

A written lexeme is read back as one token, if a blank or the end of the text follows.  So lexemes
with blanks between them are read back as these lexemes, one token each, and each token spans
exactly the characters of its lexeme.

## Main definitions

* `Lexeme.Writable`: the lexemes that can be read back.
* `layoutOf`, `layout`: the tokens of pieces of text, and those of written lexemes.

## Main results

* `Lexer.scan_pieces`: pieces of text are read back as the lexemes that they are read as alone.
* `Lexer.scan_spaced`: written lexemes are read back.
-/

namespace Script

/-- The lexemes that can be read back: identifiers have to be names, and numerals have to be
digits with at most one point between them. -/
def Lexeme.Writable : Lexeme → Prop
  | .identifier name => isName name = true
  | .number numeral => (Numeral.read? numeral).isSome = true
  | .quoted _ | .keyword _ | .symbol _ => True
  | .endOfInput => False

/-- The tokens of pieces of text with blanks between them, from index `i` on.  Each piece comes with
the lexeme that it is read as. -/
def layoutOf (i : Nat) : List (List Char × Lexeme) → List Token
  | [] => []
  | p :: ps => ⟨p.2, ⟨i, i + p.1.length⟩⟩ :: layoutOf (i + p.1.length + 1) ps

theorem map_lexeme_layoutOf (i : Nat) (ps : List (List Char × Lexeme)) :
    (layoutOf i ps).map Token.lexeme = ps.map Prod.snd := by
  induction ps generalizing i with
  | nil => rfl
  | cons p ps ih => rw [layoutOf, List.map_cons, List.map_cons, ih]

/-- The tokens of lexemes that are written with blanks between them, from index `i` on. -/
def layout (i : Nat) : List Lexeme → List Token
  | [] => []
  | l :: ls => ⟨l, ⟨i, i + l.spell.length⟩⟩ :: layout (i + l.spell.length + 1) ls

/-- A lexeme as it is written, and itself. -/
def Lexeme.piece (l : Lexeme) : List Char × Lexeme := (l.spell, l)

theorem layoutOf_map_piece (i : Nat) (ls : List Lexeme) :
    layoutOf i (ls.map Lexeme.piece) = layout i ls := by
  induction ls generalizing i with
  | nil => rfl
  | cons l ls ih => rw [List.map_cons, layoutOf, layout, ih, Lexeme.piece]

theorem map_lexeme_layout (i : Nat) (ls : List Lexeme) : (layout i ls).map Token.lexeme = ls := by
  rw [← layoutOf_map_piece, map_lexeme_layoutOf, List.map_map]
  exact List.map_id ls

namespace Lexer

/-! ### What a character begins -/

/-- The letters, by their numbers. -/
theorem isAlpha_iff {c : Char} : c.isAlpha = true ↔
    (65 ≤ c.toNat ∧ c.toNat ≤ 90) ∨ (97 ≤ c.toNat ∧ c.toNat ≤ 122) := by
  show (decide (c.val ≥ 65 ∧ c.val ≤ 90) || decide (c.val ≥ 97) && decide (c.val ≤ 122)) = true ↔ _
  simp only [Bool.or_eq_true, Bool.and_eq_true, decide_eq_true_eq, ge_iff_le,
    UInt32.le_iff_toNat_le]
  exact Iff.rfl

/-- Letters, digits and the underscore are no blanks. -/
theorem isBlank_eq_false_of_isWordPart {c : Char} (h : isWordPart c = true) :
    Text.isBlank c = false := by
  have hrange : (48 ≤ c.toNat ∧ c.toNat ≤ 57) ∨ (65 ≤ c.toNat ∧ c.toNat ≤ 90) ∨
      (97 ≤ c.toNat ∧ c.toNat ≤ 122) ∨ c.toNat = 95 := by
    simp only [isWordPart, Char.isAlphanum, Bool.or_eq_true, isAlpha_iff, Char.isDigit,
      Bool.and_eq_true, decide_eq_true_eq, ge_iff_le, UInt32.le_iff_toNat_le] at h
    rcases h with ((h | h) | h) | rfl
    · exact .inr (.inl h)
    · exact .inr (.inr (.inl h))
    · exact .inl h
    · exact .inr (.inr (.inr rfl))
  simp only [Text.isBlank, Text.blankRanges, List.any_cons, List.any_nil, Bool.or_eq_false_iff,
    Bool.and_eq_false_iff, decide_eq_false_iff_not, Bool.or_false]
  omega

theorem isWordPart_of_isWordStart {c : Char} (h : isWordStart c = true) : isWordPart c = true := by
  rw [isWordStart, Bool.or_eq_true] at h
  rcases h with h | h <;> simp [isWordPart, Char.isAlphanum, h]

theorem isWordPart_of_isDigit {c : Char} (h : c.isDigit = true) : isWordPart c = true := by
  simp [isWordPart, Char.isAlphanum, h]

theorem isWordStart_eq_false_of_isDigit {c : Char} (h : c.isDigit = true) :
    isWordStart c = false := by
  simp only [Char.isDigit, Bool.and_eq_true, decide_eq_true_eq, ge_iff_le,
    UInt32.le_iff_toNat_le] at h
  have hle : c.toNat ≤ 57 := h.2
  have hne : c ≠ '_' := by
    rintro rfl
    exact absurd hle (by decide)
  have hletter : ¬ c.isAlpha = true := by
    rw [isAlpha_iff]
    omega
  simp [isWordStart, hletter, hne]

theorem begin_of_isWordStart (i : Nat) {c : Char} (h : isWordStart c = true) :
    begin i c = .ok ([], .word i [c]) := by
  simp [begin, isBlank_eq_false_of_isWordPart (isWordPart_of_isWordStart h), h]

theorem begin_of_isDigit (i : Nat) {c : Char} (h : c.isDigit = true) :
    begin i c = .ok ([], .digits i [c]) := by
  simp [begin, isBlank_eq_false_of_isWordPart (isWordPart_of_isDigit h),
    isWordStart_eq_false_of_isDigit h, h]

/-! ### Runs of characters -/

theorem feed_cons {l l' : Lexer} {c : Char} (h : l.step c = .ok l') (cs : List Char) :
    l.feed (c :: cs) = l'.feed cs := by
  rw [feed, List.foldlM_cons, h]
  rfl

theorem feed_append {l l' : Lexer} {cs : List Char} (h : l.feed cs = .ok l') (ds : List Char) :
    l.feed (cs ++ ds) = l'.feed ds := by
  rw [feed] at h
  rw [feed, List.foldlM_append, h]
  rfl

/-- A run of characters that continue a mode, each in the same way. -/
theorem feed_run {mode : List Char → Mode} {p : Char → Bool}
    (hmode : ∀ read i c, p c = true → (mode read).extend? i c = some ([], mode (c :: read)))
    {cs : List Char} (hcs : cs.all p = true) (i : Nat) (read : List Char) (done : List Token) :
    feed ⟨i, mode read, done⟩ cs = .ok ⟨i + cs.length, mode (cs.reverse ++ read), done⟩ := by
  induction cs generalizing i read with
  | nil => rfl
  | cons c cs ih =>
    rw [List.all_cons, Bool.and_eq_true] at hcs
    have hstep : step ⟨i, mode read, done⟩ c = .ok ⟨i + 1, mode (c :: read), done⟩ := by
      simp only [step, hmode read i c hcs.1, List.reverse_nil, List.nil_append]
    have hlength : i + (cs.length + 1) = i + 1 + cs.length := by omega
    simp only [List.reverse_cons, List.append_assoc, List.singleton_append, List.length_cons]
    rw [feed_cons hstep, hlength]
    exact ih hcs.2 (i + 1) (c :: read)

/-- The machine has read the token `t`, which a blank or the end of the text completes. -/
structure Completes (l : Lexer) (t : Token) (done : List Token) : Prop where
  step_blank : l.step ' ' = .ok ⟨l.index + 1, .gap, t :: done⟩
  finish_eq : l.finish = .ok (done.reverse ++ [t])

theorem completes_gap (i : Nat) (t : Token) (done : List Token) :
    Completes ⟨i, .gap, t :: done⟩ t done := by
  refine ⟨rfl, ?_⟩
  simp [finish, Mode.close, bind, Except.bind]

theorem completes_of_close {i : Nat} {mode : Mode} {t : Token}
    (hextend : mode.extend? i ' ' = none) (hclose : mode.close i = .ok [t]) (done : List Token) :
    Completes ⟨i, mode, done⟩ t done := by
  refine ⟨?_, ?_⟩
  · simp only [step, hextend, hclose]
    rfl
  · simp only [finish, hclose]
    rfl

/-! ### One lexeme -/

/-- The characters of the lexeme `l`, read from index `i` on, are the token of that lexeme. -/
def ReadsBack (cs : List Char) (l : Lexeme) : Prop :=
  ∀ i done, ∃ l' : Lexer, feed ⟨i, .gap, done⟩ cs = .ok l' ∧ l'.index = i + cs.length ∧
    Completes l' ⟨l, ⟨i, i + cs.length⟩⟩ done

theorem readsBack_symbol (mark : Symbol) : ReadsBack mark.text.toList (.symbol mark) := by
  intro i done
  cases mark
  case assign | bang | less | greater | slash =>
    exact ⟨_, rfl, rfl, completes_of_close rfl rfl done⟩
  all_goals exact ⟨_, rfl, rfl, completes_gap _ _ done⟩

theorem feed_word (i : Nat) (done : List Token) {c : Char} {cs : List Char}
    (hc : isWordStart c = true) (hcs : cs.all isWordPart = true) :
    feed ⟨i, .gap, done⟩ (c :: cs) =
      .ok ⟨i + 1 + cs.length, .word i (cs.reverse ++ [c]), done⟩ := by
  have hstep : step ⟨i, .gap, done⟩ c = .ok ⟨i + 1, .word i [c], done⟩ := by
    simp [step, Mode.extend?, Mode.close, begin_of_isWordStart i hc, bind, Except.bind]
  rw [feed_cons hstep]
  exact feed_run (fun read j d hd => by simp [Mode.extend?, hd]) hcs (i + 1) [c] done

/-- A word is read as the lexeme that it spells. -/
theorem readsBack_word {w : String} {c : Char} {cs : List Char} (hw : w.toList = c :: cs)
    (hc : isWordStart c = true) (hcs : cs.all isWordPart = true) :
    ReadsBack w.toList (.ofWord w) := by
  intro i done
  have hlength : i + (c :: cs).length = i + 1 + cs.length := by
    rw [List.length_cons]
    omega
  have hspell : spell (cs.reverse ++ [c]) = w := by
    simp [spell, ← hw]
  rw [hw, hlength]
  refine ⟨_, feed_word i done hc hcs, rfl, completes_of_close rfl ?_ done⟩
  rw [Mode.close, hspell]

/-- What a name looks like. -/
theorem exists_of_isName {name : String} (h : isName name = true) :
    ∃ c cs, name.toList = c :: cs ∧ isWordStart c = true ∧ cs.all isWordPart = true ∧
      Keyword.ofText? name = none := by
  unfold isName at h
  split at h
  · simp at h
  · next c cs hname =>
    simp only [Bool.and_eq_true, Option.isNone_iff_eq_none] at h
    exact ⟨c, cs, hname, h.1.1, h.1.2, h.2⟩

theorem readsBack_identifier {name : String} (h : isName name = true) :
    ReadsBack name.toList (.identifier name) := by
  obtain ⟨c, cs, hname, hc, hcs, hkeyword⟩ := exists_of_isName h
  have hread := readsBack_word hname hc hcs
  rwa [Lexeme.ofWord, hkeyword] at hread

/-- What a keyword looks like. -/
theorem exists_of_keyword (word : Keyword) : ∃ c cs, word.text.toList = c :: cs ∧
    isWordStart c = true ∧ cs.all isWordPart = true := by
  cases word <;> exact ⟨_, _, rfl, rfl, rfl⟩

theorem readsBack_keyword (word : Keyword) : ReadsBack word.text.toList (.keyword word) := by
  obtain ⟨c, cs, htext, hc, hcs⟩ := exists_of_keyword word
  have hread := readsBack_word htext hc hcs
  rwa [Lexeme.ofWord, Keyword.ofText?_text] at hread

/-- What a run of digits looks like. -/
theorem exists_of_isRun {cs : List Char} (h : Numeral.isRun cs = true) :
    ∃ d ds, cs = d :: ds ∧ d.isDigit = true ∧ ds.all Char.isDigit = true := by
  cases cs with
  | nil => simp [Numeral.isRun] at h
  | cons d ds =>
    simp only [Numeral.isRun, List.all_cons, Bool.and_eq_true] at h
    exact ⟨d, ds, rfl, h.2.1, h.2.2⟩

/-- What a numeral looks like. -/
theorem numeral_cases {w : String} (h : (Numeral.read? w).isSome = true) :
    ∃ d ds, d.isDigit = true ∧ ds.all Char.isDigit = true ∧ (w.toList = d :: ds ∨
      ∃ e es, e.isDigit = true ∧ es.all Char.isDigit = true ∧
        w.toList = d :: (ds ++ '.' :: e :: es)) := by
  -- the digits in front are the whole part, and the rest is nothing or a point and more digits
  have hsplit : w.toList.takeWhile Char.isDigit ++ w.toList.dropWhile Char.isDigit = w.toList :=
    List.takeWhile_append_dropWhile
  unfold Numeral.read? Numeral.ofChars? at h
  split at h
  · next hdrop =>
    dsimp only at h
    split at h
    · next hwhole =>
      obtain ⟨d, ds, htake, hd, hds⟩ := exists_of_isRun hwhole
      refine ⟨d, ds, hd, hds, .inl ?_⟩
      rw [← hsplit, hdrop, htake, List.append_nil]
    · simp at h
  · next c fraction hdrop =>
    dsimp only at h
    split at h
    · next hboth =>
      simp only [Bool.and_eq_true, decide_eq_true_eq] at hboth
      obtain ⟨⟨rfl, hwhole⟩, hfraction⟩ := hboth
      obtain ⟨d, ds, htake, hd, hds⟩ := exists_of_isRun hwhole
      obtain ⟨e, es, rfl, he, hes⟩ := exists_of_isRun hfraction
      refine ⟨d, ds, hd, hds, .inr ⟨e, es, he, hes, ?_⟩⟩
      rw [← hsplit, hdrop, htake, List.cons_append]
    · simp at h

theorem feed_whole (i : Nat) (done : List Token) {d : Char} {ds : List Char}
    (hd : d.isDigit = true) (hds : ds.all Char.isDigit = true) :
    feed ⟨i, .gap, done⟩ (d :: ds) =
      .ok ⟨i + 1 + ds.length, .digits i (ds.reverse ++ [d]), done⟩ := by
  have hstep : step ⟨i, .gap, done⟩ d = .ok ⟨i + 1, .digits i [d], done⟩ := by
    simp [step, Mode.extend?, Mode.close, begin_of_isDigit i hd, bind, Except.bind]
  rw [feed_cons hstep]
  exact feed_run (fun read j c hc => by simp [Mode.extend?, hc]) hds (i + 1) [d] done

theorem feed_fraction (i j : Nat) (read : List Char) (done : List Token) {e : Char}
    {es : List Char} (he : e.isDigit = true) (hes : es.all Char.isDigit = true) :
    feed ⟨j, .digits i read, done⟩ ('.' :: e :: es) =
      .ok ⟨j + 1 + 1 + es.length, .fraction i (es.reverse ++ e :: '.' :: read), done⟩ := by
  have hdot : step ⟨j, .digits i read, done⟩ '.' = .ok ⟨j + 1, .point i read, done⟩ := rfl
  have hfirst : step ⟨j + 1, .point i read, done⟩ e =
      .ok ⟨j + 1 + 1, .fraction i (e :: '.' :: read), done⟩ := by
    simp [step, Mode.extend?, he]
  rw [feed_cons hdot, feed_cons hfirst]
  exact feed_run (fun read j c hc => by simp [Mode.extend?, hc]) hes _ _ done

theorem readsBack_number {w : String} (h : (Numeral.read? w).isSome = true) :
    ReadsBack w.toList (.number w) := by
  intro i done
  obtain ⟨d, ds, hd, hds, hw | ⟨e, es, he, hes, hw⟩⟩ := numeral_cases h
  · have hspell : spell (ds.reverse ++ [d]) = w := by
      simp [spell, ← hw]
    have hlength : i + (d :: ds).length = i + 1 + ds.length := by
      rw [List.length_cons]
      omega
    rw [hw, hlength]
    refine ⟨_, feed_whole i done hd hds, rfl, completes_of_close rfl ?_ done⟩
    rw [Mode.close, hspell]
  · have hspell : spell (es.reverse ++ e :: '.' :: (ds.reverse ++ [d])) = w := by
      rw [← String.ofList_toList (s := w), hw]
      simp [spell]
    have hlength : i + ((d :: ds) ++ '.' :: e :: es).length =
        i + 1 + ds.length + 1 + 1 + es.length := by
      simp only [List.length_cons, List.length_append]
      omega
    rw [hw, ← List.cons_append, hlength, feed_append (feed_whole i done hd hds)]
    refine ⟨_, feed_fraction i _ _ done he hes, rfl, completes_of_close rfl ?_ done⟩
    rw [Mode.close, hspell]

/-- Inside quotes, an escaped character is read as itself. -/
theorem feed_escapeIn {quote : Char} (hquote : isQuote quote = true) (start i : Nat)
    (read : List Char) (done : List Token) (c : Char) :
    feed ⟨i, .quoted start quote read, done⟩ (escapeIn quote c) =
      .ok ⟨i + (escapeIn quote c).length, .quoted start quote (c :: read), done⟩ := by
  have hback : '\\' ≠ quote := by
    rintro rfl
    simp [isQuote] at hquote
  unfold escapeIn
  split
  · next hc =>
    -- only `n`, `r` and `t` stand for another character after a backslash
    have hplain : unescape c = c := by
      rw [Bool.or_eq_true, decide_eq_true_eq, decide_eq_true_eq] at hc
      rw [isQuote, Bool.or_eq_true, decide_eq_true_eq, decide_eq_true_eq] at hquote
      rcases hc with rfl | rfl
      · rcases hquote with rfl | rfl <;> rfl
      · rfl
    simp [feed, step, Mode.extend?, hback, hplain, bind, Except.bind, pure, Except.pure]
  · next hc =>
    rw [Bool.or_eq_true, decide_eq_true_eq, decide_eq_true_eq, not_or] at hc
    simp [feed, step, Mode.extend?, hc.1, hc.2, bind, Except.bind, pure, Except.pure]

theorem feed_escaped {quote : Char} (hquote : isQuote quote = true) (start : Nat) (cs : List Char)
    (i : Nat) (read : List Char) (done : List Token) :
    feed ⟨i, .quoted start quote read, done⟩ (cs.flatMap (escapeIn quote)) =
      .ok ⟨i + (cs.flatMap (escapeIn quote)).length, .quoted start quote (cs.reverse ++ read),
        done⟩ := by
  induction cs generalizing i read with
  | nil => rfl
  | cons c cs ih =>
    rw [List.flatMap_cons, feed_append (feed_escapeIn hquote start i read done c), ih]
    simp [Nat.add_assoc]

theorem step_quote {quote : Char} (h : isQuote quote = true) (i : Nat) (done : List Token) :
    step ⟨i, .gap, done⟩ quote = .ok ⟨i + 1, .quoted i quote [], done⟩ := by
  rw [isQuote, Bool.or_eq_true, decide_eq_true_eq, decide_eq_true_eq] at h
  rcases h with rfl | rfl <;> rfl

theorem step_unquote {i start : Nat} {quote : Char} {read : List Char} {done : List Token} :
    step ⟨i, .quoted start quote read, done⟩ quote =
      .ok ⟨i + 1, .gap, ⟨.quoted (spell read), ⟨start, i + 1⟩⟩ :: done⟩ := by
  simp [step, Mode.extend?]

/-- Characters between quotes are read back as the text that the machine reads from them. -/
theorem readsBack_between {quote : Char} {interior : List Char} {content : String}
    (hquote : isQuote quote = true)
    (hinterior : ∀ start i done, feed ⟨i, .quoted start quote [], done⟩ interior =
      .ok ⟨i + interior.length, .quoted start quote content.toList.reverse, done⟩) :
    ReadsBack (quote :: (interior ++ [quote])) (.quoted content) := by
  intro i done
  have hspell : spell content.toList.reverse = content := by
    simp [spell]
  have hlength : i + (quote :: (interior ++ [quote])).length = i + 1 + interior.length + 1 := by
    simp only [List.length_cons, List.length_append, List.length_nil]
    omega
  rw [hlength, feed_cons (step_quote hquote i done), feed_append (hinterior i (i + 1) done),
    feed_cons step_unquote, hspell]
  exact ⟨_, rfl, rfl, completes_gap _ _ done⟩

/-- A text in quotes of either kind is read back as that text. -/
theorem readsBack_quoteWith {quote : Char} (hquote : isQuote quote = true) (content : String) :
    ReadsBack (quoteWith quote content) (.quoted content) := by
  refine readsBack_between hquote fun start i done => ?_
  rw [feed_escaped hquote, List.append_nil]

theorem readsBack_spell {l : Lexeme} (h : l.Writable) : ReadsBack l.spell l := by
  cases l with
  | identifier name => exact readsBack_identifier h
  | number numeral => exact readsBack_number h
  | quoted content => exact readsBack_quoteWith rfl content
  | keyword word => exact readsBack_keyword word
  | symbol mark => exact readsBack_symbol mark
  | endOfInput => exact h.elim

/-! ### Many lexemes -/

theorem feed_pieces {ps : List (List Char × Lexeme)} (h : ∀ p ∈ ps, ReadsBack p.1 p.2)
    (hne : ps ≠ []) (i : Nat) (done : List Token) :
    (feed ⟨i, .gap, done⟩ ([' '].intercalate (ps.map Prod.fst)) >>= finish) =
      .ok (done.reverse ++ layoutOf i ps) := by
  induction ps generalizing i done with
  | nil => exact absurd rfl hne
  | cons p ps ih =>
    obtain ⟨l', hfeed, hindex, hcompletes⟩ := h p (by simp) i done
    cases ps with
    | nil =>
      have htext : [' '].intercalate ([p].map Prod.fst) = p.1 := by
        simp
      rw [htext, hfeed]
      exact hcompletes.finish_eq
    | cons q ps =>
      have htext : [' '].intercalate ((p :: q :: ps).map Prod.fst) =
          p.1 ++ ' ' :: [' '].intercalate ((q :: ps).map Prod.fst) := by
        simp [List.intercalate]
      rw [htext, feed_append hfeed, feed_cons hcompletes.step_blank, hindex,
        ih (fun x hx => h x (List.mem_cons_of_mem p hx)) (by simp)]
      simp [layoutOf]

/-- **Pieces of text are read back**, one token for each of them, if each of them is alone. -/
theorem scan_pieces {ps : List (List Char × Lexeme)} (h : ∀ p ∈ ps, ReadsBack p.1 p.2) :
    scan ([' '].intercalate (ps.map Prod.fst)) = .ok (layoutOf 0 ps) := by
  cases ps with
  | nil => rfl
  | cons p ps => exact feed_pieces h (by simp) 0 []

/-- **Written lexemes are read back**, one token for each of them. -/
theorem scan_spaced {ls : List Lexeme} (h : ∀ l ∈ ls, l.Writable) :
    scan (spaced ls) = .ok (layout 0 ls) := by
  have hpieces : ∀ p ∈ ls.map Lexeme.piece, ReadsBack p.1 p.2 := by
    intro p hp
    obtain ⟨l, hl, rfl⟩ := List.mem_map.mp hp
    exact readsBack_spell (h l hl)
  have hscan := scan_pieces hpieces
  rwa [List.map_map, layoutOf_map_piece] at hscan

end Lexer

end Script
