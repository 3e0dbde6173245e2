import Script.Proofs.Grammar.Sequence
import Script.Proofs.Printing.Reading
import Script.Proofs.Run.Agreement
import Script.Proofs.Value.Data

/-!
# The text of data is a literal

The text of a tree of data is read as one statement, whose expression is a literal of the same
shape.  In such a text a lexeme may stand right in front of the next one: names, words and numerals
are ended by the punctuation that follows them, and punctuation and quoted texts end by themselves.

## Main definitions

* `Lexer.Reads`: characters that are read as lexemes, and are ended by punctuation.
* `Datum.lexemes`, `Datum.expr`: the lexemes and the literal of a tree.

## Main results

* `Datum.reads`: the text of a tree is read as its lexemes.
* `Datum.readsAt`: the lexemes of a tree denote its literal.
* `Datum.readProgram_shown`: the text of an array is a program of one statement.
-/

namespace Script

namespace Lexer

/-! ## Lexemes that are ended by punctuation -/

/-- The characters that continue no word and no numeral. -/
def isBoundary (c : Char) : Bool := !isWordPart c && c ≠ '.'

/-- The machine has read the tokens `done`, the last one first, and nothing that a boundary would
continue. -/
structure Rests (l : Lexer) (done : List Token) : Prop where
  step_eq : ∀ c, isBoundary c = true → l.step c = step ⟨l.index, .gap, done⟩ c
  finish_eq : l.finish = .ok done.reverse

theorem rests_gap (i : Nat) (done : List Token) : Rests ⟨i, .gap, done⟩ done := by
  refine ⟨fun _ _ => rfl, ?_⟩
  simp [finish, Mode.close, bind, Except.bind]

theorem rests_of_close {i : Nat} {mode : Mode} {t : Token}
    (hextend : ∀ c, isBoundary c = true → mode.extend? i c = none)
    (hclose : mode.close i = .ok [t]) (done : List Token) : Rests ⟨i, mode, done⟩ (t :: done) := by
  refine ⟨fun c hc => ?_, ?_⟩
  · simp only [step, hextend c hc, hclose]
    rfl
  · simp only [finish, hclose]
    simp [bind, Except.bind]

/-- The characters are read as tokens with the given lexemes, if nothing or a boundary follows. -/
def Reads (cs : List Char) (ls : List Lexeme) : Prop :=
  ∀ (i : Nat) (done : List Token), ∃ (l : Lexer) (ts : List Token),
    feed ⟨i, .gap, done⟩ cs = .ok l ∧ l.index = i + cs.length ∧ ts.map Token.lexeme = ls ∧
      Rests l (ts.reverse ++ done)

theorem reads_nil : Reads [] [] := fun i done => ⟨_, [], rfl, rfl, rfl, rests_gap i done⟩

/-- What begins with a boundary can be put behind anything. -/
theorem Reads.append {cs ds : List Char} {ls ms : List Lexeme} {c : Char} (h : Reads cs ls)
    (hc : isBoundary c = true) (h' : Reads (c :: ds) ms) : Reads (cs ++ c :: ds) (ls ++ ms) := by
  intro i done
  obtain ⟨l, ts, hfeed, hindex, hts, hrests⟩ := h i done
  obtain ⟨l', us, hfeed', hindex', hus, hrests'⟩ := h' l.index (ts.reverse ++ done)
  refine ⟨l', ts ++ us, ?_, ?_, ?_, ?_⟩
  · rw [feed_append hfeed, ← hfeed', feed, feed, List.foldlM_cons, List.foldlM_cons,
      hrests.step_eq c hc]
  · rw [hindex', hindex, List.length_append, Nat.add_assoc]
  · rw [List.map_append, hts, hus]
  · rwa [List.reverse_append, List.append_assoc]

/-- A character that is a token by itself. -/
theorem reads_symbol_cons {cs : List Char} {ls : List Lexeme} {c : Char} {mark : Symbol}
    (hc : ∀ i done, step ⟨i, .gap, done⟩ c =
      .ok ⟨i + 1, .gap, ⟨.symbol mark, ⟨i, i + 1⟩⟩ :: done⟩) (h : Reads cs ls) :
    Reads (c :: cs) (.symbol mark :: ls) := by
  intro i done
  obtain ⟨l, ts, hfeed, hindex, hts, hrests⟩ := h (i + 1) (⟨.symbol mark, ⟨i, i + 1⟩⟩ :: done)
  refine ⟨l, ⟨.symbol mark, ⟨i, i + 1⟩⟩ :: ts, ?_, ?_, ?_, ?_⟩
  · rw [feed_cons (hc i done), hfeed]
  · rw [hindex, List.length_cons]
    omega
  · rw [List.map_cons, hts]
  · rwa [List.reverse_cons, List.append_assoc]

theorem reads_blank_cons {cs : List Char} {ls : List Lexeme} (h : Reads cs ls) :
    Reads (' ' :: cs) ls := by
  intro i done
  obtain ⟨l, ts, hfeed, hindex, hts, hrests⟩ := h (i + 1) done
  have hstep : step ⟨i, .gap, done⟩ ' ' = .ok ⟨i + 1, .gap, done⟩ := rfl
  refine ⟨l, ts, ?_, ?_, hts, hrests⟩
  · rw [feed_cons hstep, hfeed]
  · rw [hindex, List.length_cons]
    omega

/-! ## Words, numerals and quoted texts -/

theorem isWordPart_of_isBoundary {c : Char} (h : isBoundary c = true) : isWordPart c = false := by
  simp only [isBoundary, Bool.and_eq_true, Bool.not_eq_true'] at h
  exact h.1

theorem isDigit_of_isBoundary {c : Char} (h : isBoundary c = true) : c.isDigit = false := by
  cases hdigit : c.isDigit with
  | false => rfl
  | true =>
    have hpart := isWordPart_of_isDigit hdigit
    rw [isWordPart_of_isBoundary h] at hpart
    cases hpart

theorem reads_word {w : String} {c : Char} {cs : List Char} (hw : w.toList = c :: cs)
    (hc : isWordStart c = true) (hcs : cs.all isWordPart = true) :
    Reads w.toList [.ofWord w] := by
  intro i done
  have hspell : spell (cs.reverse ++ [c]) = w := by
    simp [spell, ← hw]
  rw [hw]
  refine ⟨_, [⟨.ofWord w, ⟨i, i + 1 + cs.length⟩⟩], feed_word i done hc hcs, ?_, rfl, ?_⟩
  · show i + 1 + cs.length = i + (cs.length + 1)
    omega
  · refine rests_of_close (fun d hd => ?_) ?_ done
    · simp [Mode.extend?, isWordPart_of_isBoundary hd]
    · rw [Mode.close, hspell]

theorem reads_identifier {name : String} (h : isName name = true) :
    Reads name.toList [.identifier name] := by
  obtain ⟨c, cs, hname, hc, hcs, hkeyword⟩ := exists_of_isName h
  have hread := reads_word hname hc hcs
  rwa [Lexeme.ofWord, hkeyword] at hread

theorem reads_keyword (word : Keyword) : Reads word.text.toList [.keyword word] := by
  obtain ⟨c, cs, htext, hc, hcs⟩ := exists_of_keyword word
  have hread := reads_word htext hc hcs
  rwa [Lexeme.ofWord, Keyword.ofText?_text] at hread

/-- A run of digits. -/
theorem reads_digits {cs : List Char} (h : Numeral.isRun cs = true) :
    Reads cs [.number (String.ofList cs)] := by
  intro i done
  obtain ⟨d, ds, rfl, hd, hds⟩ := exists_of_isRun h
  have hspell : spell (ds.reverse ++ [d]) = String.ofList (d :: ds) := by
    simp [spell]
  refine ⟨_, [⟨.number (String.ofList (d :: ds)), ⟨i, i + 1 + ds.length⟩⟩],
    feed_whole i done hd hds, ?_, rfl, ?_⟩
  · show i + 1 + ds.length = i + (ds.length + 1)
    omega
  · refine rests_of_close (fun c hc => ?_) ?_ done
    · have hpoint : c ≠ '.' := by
        simp only [isBoundary, Bool.and_eq_true, decide_eq_true_eq] at hc
        exact hc.2
      simp [Mode.extend?, isDigit_of_isBoundary hc, hpoint]
    · rw [Mode.close, hspell]

/-- A character as it is escaped in quotes. -/
theorem escapeChar_cases {c : Char} (h : Text.Legible c) :
    (Text.escapeChar c = [c] ∧ c ≠ '\x22' ∧ c ≠ '\\') ∨
      ∃ d, Text.escapeChar c = ['\\', d] ∧ unescape d = c := by
  unfold Text.Legible at h
  revert h
  unfold Text.escapeChar
  split
  · exact fun h => absurd rfl h.1
  · exact fun _ => .inr ⟨'t', rfl, rfl⟩
  · exact fun _ => .inr ⟨'r', rfl, rfl⟩
  · exact fun _ => .inr ⟨'n', rfl, rfl⟩
  · exact fun _ => .inr ⟨'\x22', rfl, rfl⟩
  · exact fun _ => .inr ⟨'\\', rfl, rfl⟩
  · next hquote hback =>
    split
    · exact fun _ => .inl ⟨rfl, fun heq => hquote heq, fun heq => hback heq⟩
    · exact fun h => absurd rfl h.2

theorem feed_escapeChar {c : Char} (h : Text.Legible c) (start i : Nat) (read : List Char)
    (done : List Token) :
    feed ⟨i, .quoted start '\x22' read, done⟩ (Text.escapeChar c) =
      .ok ⟨i + (Text.escapeChar c).length, .quoted start '\x22' (c :: read), done⟩ := by
  rcases escapeChar_cases h with ⟨hplain, hquote, hback⟩ | ⟨d, hescaped, hd⟩
  · rw [hplain]
    simp [feed, step, Mode.extend?, hquote, hback, bind, Except.bind, pure, Except.pure]
  · rw [hescaped]
    simp [feed, step, Mode.extend?, hd, bind, Except.bind, pure, Except.pure]

theorem feed_legible {cs : List Char} (h : ∀ c ∈ cs, Text.Legible c) (start i : Nat)
    (read : List Char) (done : List Token) :
    feed ⟨i, .quoted start '\x22' read, done⟩ (cs.flatMap Text.escapeChar) =
      .ok ⟨i + (cs.flatMap Text.escapeChar).length, .quoted start '\x22' (cs.reverse ++ read),
        done⟩ := by
  induction cs generalizing i read with
  | nil => rfl
  | cons c cs ih =>
    rw [List.flatMap_cons, feed_append (feed_escapeChar (h c List.mem_cons_self) start i read done),
      ih fun d hd => h d (List.mem_cons_of_mem _ hd)]
    simp [Nat.add_assoc]

/-- A text in quotes is read back, if all its characters are legible. -/
theorem reads_quote {s : String} (h : ∀ c ∈ s.toList, Text.Legible c) :
    Reads (Text.quote s).toList [.quoted s] := by
  intro i done
  have hopen : step ⟨i, .gap, done⟩ '\x22' = .ok ⟨i + 1, .quoted i '\x22' [], done⟩ := rfl
  have hclose : ∀ j read, step ⟨j, .quoted i '\x22' read, done⟩ '\x22' =
      .ok ⟨j + 1, .gap, ⟨.quoted (spell read), ⟨i, j + 1⟩⟩ :: done⟩ := by
    intro j read
    simp [step, Mode.extend?]
  have hspell : spell (s.toList.reverse ++ []) = s := by
    simp [spell]
  rw [Text.quote, String.toList_ofList, feed_cons hopen, feed_append (feed_legible h i _ _ done),
    feed_cons (hclose _ _), hspell]
  refine ⟨_, [_], rfl, ?_, rfl, rests_gap _ _⟩
  simp only [List.length_cons, List.length_append, List.length_nil]
  omega

end Lexer

/-! ## The lexemes of data -/

namespace Datum

open Lexer Grammar

mutual

/-- The lexemes of a tree. -/
def lexemes : Datum → List Lexeme
  | undefined => [.keyword .undefined]
  | boolean b => [.keyword (if b then .trueWord else .falseWord)]
  | number n _ => [.number (String.ofList (Number.digitsOf n))]
  | text s _ => [.quoted s]
  | array items => .symbol .leftBracket :: (itemLexemes items ++ [.symbol .rightBracket])
  | map entries => braced (entryLexemes entries)

/-- The lexemes of items, with commas between them. -/
def itemLexemes : List Datum → List Lexeme
  | [] => []
  | [d] => d.lexemes
  | d :: ds => d.lexemes ++ .symbol .comma :: itemLexemes ds

/-- The lexemes of entries, with commas between them. -/
def entryLexemes : List (Key × Datum) → List Lexeme
  | [] => []
  | [(key, d)] => .identifier key.text :: .symbol .colon :: d.lexemes
  | (key, d) :: es =>
    .identifier key.text :: .symbol .colon :: (d.lexemes ++ .symbol .comma :: entryLexemes es)

end

/-- Texts with a comma and a blank between the first one and the others. -/
theorem toList_intercalate_cons (s t : String) (ss : List String) :
    (", ".intercalate (s :: t :: ss)).toList =
      s.toList ++ ',' :: ' ' :: (", ".intercalate (t :: ss)).toList := by
  rw [String.intercalate_cons_cons]
  simp

/-- A key in front of the characters of a tree. -/
theorem reads_key_cons (key : Key) {cs : List Char} {ls : List Lexeme} (h : Reads cs ls) :
    Reads (key.text.toList ++ ':' :: ' ' :: cs)
      (.identifier key.text :: .symbol .colon :: ls) :=
  (reads_identifier key.isName).append (by decide)
    (reads_symbol_cons (fun _ _ => rfl) (reads_blank_cons h))

theorem toList_entry (key : Key) (shown : String) :
    (key.text ++ ": " ++ shown).toList = key.text.toList ++ ':' :: ' ' :: shown.toList := by
  simp

mutual

/-- **The text of a tree is read as its lexemes.** -/
theorem reads : (d : Datum) → Reads d.shown.toList d.lexemes
  | undefined => by
    rw [shown, lexemes]
    exact reads_keyword .undefined
  | boolean true => by
    rw [shown, lexemes]
    exact reads_keyword .trueWord
  | boolean false => by
    rw [shown, lexemes]
    exact reads_keyword .falseWord
  | number n _ => by
    rw [shown, lexemes, String.toList_ofList]
    exact reads_digits (Numeral.isRun_digitsOf n)
  | text s hs => by
    rw [shown, lexemes]
    exact reads_quote hs
  | array ds => by
    have hclose : Reads [']'] [.symbol .rightBracket] :=
      reads_symbol_cons (fun _ _ => rfl) reads_nil
    have hbody := (reads_items ds).append (by decide) hclose
    rw [shown, lexemes]
    simpa using reads_symbol_cons (c := '[') (fun _ _ => rfl) hbody
  | map es => by
    have hclose : Reads ['\x7d'] [.symbol .rightBrace] :=
      reads_symbol_cons (fun _ _ => rfl) reads_nil
    have hbody := (reads_entries es).append (by decide) hclose
    rw [shown, lexemes, braced]
    simpa using reads_symbol_cons (c := '\x7b') (fun _ _ => rfl) hbody

theorem reads_items : (ds : List Datum) →
    Reads (", ".intercalate (shownItems ds)).toList (itemLexemes ds)
  | [] => reads_nil
  | [d] => by
    simpa [shownItems, itemLexemes] using d.reads
  | d :: d' :: ds => by
    have hrest := reads_items (d' :: ds)
    rw [shownItems] at hrest
    rw [shownItems, shownItems, toList_intercalate_cons, itemLexemes]
    · exact d.reads.append (by decide)
        (reads_symbol_cons (fun _ _ => rfl) (reads_blank_cons hrest))
    · simp

theorem reads_entries : (es : List (Key × Datum)) →
    Reads (", ".intercalate (shownEntries es)).toList (entryLexemes es)
  | [] => reads_nil
  | [(key, d)] => by
    rw [shownEntries, shownEntries, String.intercalate_singleton, toList_entry, entryLexemes]
    exact reads_key_cons key d.reads
  | (key, d) :: (key', d') :: es => by
    have hrest := reads_entries ((key', d') :: es)
    rw [shownEntries] at hrest
    rw [shownEntries, shownEntries, toList_intercalate_cons, toList_entry, entryLexemes]
    · exact (reads_key_cons key d.reads).append (by decide)
        (reads_symbol_cons (fun _ _ => rfl) (reads_blank_cons hrest))
    · simp

end

/-! ## The literals of data -/

mutual

/-- The literal of a tree. -/
def expr : Datum → Expr Unit
  | undefined => .undefined ()
  | boolean b => .boolean () b
  | number n _ => .number () (Float.ofScientific n false 0)
  | text s _ => .text () s
  | array items => .array () (itemExprs items)
  | map entries => .map () (entryExprs entries)

/-- The literals of items. -/
def itemExprs : List Datum → List (Expr Unit)
  | [] => []
  | d :: ds => d.expr :: itemExprs ds

/-- The literals of entries, with their keys. -/
def entryExprs : List (Key × Datum) → List (String × Expr Unit)
  | [] => []
  | (key, d) :: es => (key.text, d.expr) :: entryExprs es

end

mutual

/-- A literal has no spans to be erased. -/
theorem erase_expr : (d : Datum) → d.expr.erase = d.expr
  | undefined | boolean _ | number _ _ | text _ _ => by
    rw [expr]
    rfl
  | array ds => by
    have hitems := erase_itemExprs ds
    simp only [expr, Expr.erase, Expr.mapAnn, hitems]
  | map es => by
    have hentries := erase_entryExprs es
    simp only [expr, Expr.erase, Expr.mapAnn, hentries]

theorem erase_itemExprs : (ds : List Datum) →
    Expr.mapAnnList (fun _ => ()) (itemExprs ds) = itemExprs ds
  | [] => rfl
  | d :: ds => by
    have hd := erase_expr d
    rw [Expr.erase] at hd
    rw [itemExprs, Expr.mapAnnList, hd, erase_itemExprs ds]

theorem erase_entryExprs : (es : List (Key × Datum)) →
    Expr.mapAnnEntries (fun _ => ()) (entryExprs es) = entryExprs es
  | [] => rfl
  | (key, d) :: es => by
    have hd := erase_expr d
    rw [Expr.erase] at hd
    rw [entryExprs, Expr.mapAnnEntries, hd, erase_entryExprs es]

end

theorem binding_expr (d : Datum) : d.expr.binding = appliedBinding := by
  cases d <;> rw [expr] <;> rfl

mutual

/-- **The lexemes of a tree denote its literal.** -/
theorem readsAt : (d : Datum) → ReadsAt appliedBinding d.lexemes d.expr
  | undefined => by
    rw [lexemes, expr]
    exact readsAt_single fun t _ ht => ⟨.undefined t.span, .undefined ht, rfl⟩
  | boolean true => by
    rw [lexemes, expr]
    exact readsAt_single fun t _ ht => ⟨.boolean t.span true, .trueWord ht, rfl⟩
  | boolean false => by
    rw [lexemes, expr]
    exact readsAt_single fun t _ ht => ⟨.boolean t.span false, .falseWord ht, rfl⟩
  | number n _ => by
    rw [lexemes, expr]
    exact readsAt_single fun t _ ht =>
      ⟨.number t.span (Float.ofScientific n false 0), .number ht (Numeral.read?_digitsOf n), rfl⟩
  | text s _ => by
    rw [lexemes, expr]
    exact readsAt_single fun t _ ht => ⟨.text t.span s, .text ht, rfl⟩
  | array ds => by
    rw [lexemes, expr]
    exact readsAt_array (readsItems ds)
  | map es => by
    rw [lexemes, expr]
    exact readsAt_map (readsEntries es)

theorem readsItems : (ds : List Datum) →
    ReadsItems .rightBracket (itemLexemes ds) (itemExprs ds)
  | [] => by
    intro ts next hts hnext
    rw [itemLexemes, List.map_eq_nil_iff] at hts
    subst hts
    exact ⟨[], .noItems hnext, rfl⟩
  | [d] => by
    rw [itemLexemes, itemExprs, itemExprs]
    exact readsItems_one rfl (by simp) (d.binding_expr ▸ d.readsAt)
  | d :: d' :: ds => by
    rw [itemLexemes, itemExprs]
    · exact readsItems_cons (d.binding_expr ▸ d.readsAt) (readsItems (d' :: ds))
    · simp

theorem readsEntries : (es : List (Key × Datum)) → ReadsEntries (entryLexemes es) (entryExprs es)
  | [] => by
    intro ts next hts hnext
    rw [entryLexemes, List.map_eq_nil_iff] at hts
    subst hts
    exact ⟨[], .noEntries hnext, rfl⟩
  | [(key, d)] => by
    rw [entryLexemes, entryExprs, entryExprs]
    exact readsEntries_one (fun _ => key?_of_identifier) (d.binding_expr ▸ d.readsAt)
  | (key, d) :: entry :: es => by
    rw [entryLexemes, entryExprs]
    · exact readsEntries_cons (fun _ => key?_of_identifier) (d.binding_expr ▸ d.readsAt)
        (readsEntries (entry :: es))
    · simp

end

theorem endsAt_of_isEnd {t : Token} (ht : t.lexeme = .endOfInput) (least : Nat) :
    EndsAt least t := by
  have hzero : EndsAt 0 t := by
    refine ⟨by simp [ht], by simp [NoApplication, ht], ?_⟩
    intro k op _
    simp [ht]
  exact hzero.mono (Nat.zero_le least)

/-- What begins with a bracket is no block and no declaration. -/
theorem opens_of_leftBracket {t : Token} {ts : List Token} (ht : t.lexeme = .symbol .leftBracket) :
    opensBlock (t :: ts) = false ∧ opensDeclaration (t :: ts) = false := by
  refine ⟨?_, ?_⟩
  · unfold opensBlock
    split <;> simp_all [Token.isSymbol]
  · unfold opensDeclaration
    split <;> simp_all [Token.isKeyword]

/-- **The text of an array is a program of one statement**, whose expression is the literal. -/
theorem readProgram_shown (ds : List Datum) :
    ∃ stmt : Stmt Span, readProgram (array ds).shown = .ok ⟨[stmt], none⟩ ∧
      stmt.erase = .expr () (array ds).expr := by
  obtain ⟨l, ts, hfeed, -, hts, hrests⟩ := (array ds).reads 0 []
  have hscan : scan (array ds).shown.toList = .ok ts := by
    rw [scan, start, hfeed]
    show l.finish = .ok ts
    simpa using hrests.finish_eq
  have hsource := ofSource_of_scan hscan
  have hmark : (Token.endAt (array ds).shown.length).lexeme = .endOfInput := rfl
  obtain ⟨e, hderives, herase⟩ := (array ds).readsAt.mono (Nat.zero_le _) hts
    (endsAt_of_isEnd hmark 0)
  have hopens : opensBlock ts = false ∧ opensDeclaration ts = false := by
    rw [lexemes] at hts
    obtain ⟨left, us, rfl, hleft, -⟩ := List.map_eq_cons_iff.mp hts
    exact opens_of_leftBracket hleft
  have hform : Derives (.form fun span => .expr span e) ts (.endAt (array ds).shown.length) :=
    .exprForm hderives hopens.1 hopens.2
  have hstatements : Derives (.statements [.expr (cover ts) e]) (ts ++ [])
      (.endAt (array ds).shown.length) :=
    .moreStatements (.bare hform Lexeme.noConfusion) (.noStatements (.inr hmark))
  rw [List.append_nil] at hstatements
  refine ⟨.expr (cover ts) e, ?_, ?_⟩
  · rw [readProgram_of_ok hsource]
    congr 1
    exact TokenStream.program_of_derives _ (TokenStream.ofTokens_passes ts _) rfl hstatements
  · rw [erase_expr] at herase
    rw [← herase]
    rfl

end Datum

end Script
