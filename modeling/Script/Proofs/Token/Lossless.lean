import Script.Proofs.Token.Composition

/-!
# Lexing is lossless

The tokens of a text account for all its characters.  A token that is not quoted stands for exactly
the characters that it spans, and these decide what it is.  A quoted token stands for the resolved
text between two equal quotes.  Between the tokens there is nothing but blanks and complete
comments.

The machine is described by two relations.  `Laid` says how the part of the text that is done with
is made up, and `Mode.Holds` what the characters after it amount to.  A character keeps both, and so
does a text.

## Main definitions

* `Lexeme.ofText?`: the lexeme that a text spells.
* `Lexer.unquote`: the text that the characters between two quotes stand for.
* `Lexer.Spells`: the characters that a lexeme is read from.
* `Lexer.Comment`, `Lexer.Filler`, `Lexer.IsGap`: what may stand between tokens.

## Main results

* `Lexer.follows_of_step`, `Lexer.follows_of_feed`: what a character and what a text keep.
* `tokenize_lossless`: the tokens of a text, their spans and spellings, and the gaps.
-/

namespace Script

/-- The characters of a span. -/
def Span.slice (s : Span) (cs : List Char) : List Char := cs.extract s.start s.stop

/-- Every symbol, each once. -/
def Symbol.all : List Symbol :=
  [.leftParen, .rightParen, .leftBrace, .rightBrace, .leftBracket, .rightBracket, .comma, .dot,
    .colon, .semicolon, .assign, .plus, .minus, .star, .slash, .percent, .bothAnd, .bothOr, .bang,
    .bangEqual, .equalEqual, .less, .lessEqual, .greater, .greaterEqual]

/-- The symbol with the given spelling, if there is one. -/
def Symbol.ofText? (s : String) : Option Symbol := all.find? fun mark => mark.text = s

/-- Whether characters are a word. -/
def Lexer.isWord : List Char → Bool
  | [] => false
  | c :: cs => isWordStart c && cs.all isWordPart

/-- The lexeme that a text spells, if it is a word, a numeral or a symbol. -/
def Lexeme.ofText? (s : String) : Option Lexeme :=
  if Lexer.isWord s.toList then some (ofWord s)
  else if (Numeral.read? s).isSome then some (.number s)
  else (Symbol.ofText? s).map .symbol

namespace Lexer

/-! ## What tokens are read from -/

/-- The text that characters between two quotes `quote` stand for.  There is none if one of them is
the quote itself, or if a backslash has nothing behind it. -/
def unquote (quote : Char) : List Char → Option (List Char)
  | [] => some []
  | c :: cs =>
    if c = quote then none
    else if c = '\\' then
      match cs with
      | [] => none
      | d :: cs => (unquote quote cs).map (unescape d :: ·)
    else (unquote quote cs).map (c :: ·)

/-- The characters `word` are read as the lexeme. -/
def Spells (word : List Char) : Lexeme → Prop
  | .quoted content => ∃ quote interior, isQuote quote = true ∧
      word = quote :: (interior ++ [quote]) ∧ unquote quote interior = some content.toList
  | lexeme => word = lexeme.text.toList ∧ Lexeme.ofText? lexeme.text = some lexeme

theorem text_ofWord (s : String) : (Lexeme.ofWord s).text = s := by
  unfold Lexeme.ofWord
  split
  · next k hk => exact Keyword.text_of_ofText? hk
  · rfl

theorem spells_of_text {word : List Char} {lexeme : Lexeme}
    (hquoted : ∀ content, lexeme ≠ .quoted content) (htext : word = lexeme.text.toList)
    (hkind : Lexeme.ofText? (String.ofList word) = some lexeme) : Spells word lexeme := by
  have hlist : String.ofList word = lexeme.text := by rw [htext, String.ofList_toList]
  rw [hlist] at hkind
  cases lexeme with
  | quoted content => exact absurd rfl (hquoted content)
  | identifier | number | keyword | symbol | endOfInput => exact ⟨htext, hkind⟩

theorem spells_ofWord {word : List Char} (h : isWord word = true) :
    Spells word (.ofWord (String.ofList word)) := by
  apply spells_of_text
  · intro content
    unfold Lexeme.ofWord
    split <;> simp
  · rw [text_ofWord, String.toList_ofList]
  · rw [Lexeme.ofText?, String.toList_ofList, if_pos h]

theorem isWord_eq_false_of_isDigit {c : Char} (h : c.isDigit = true) (cs : List Char) :
    isWord (c :: cs) = false := by
  simp [isWord, isWordStart_eq_false_of_isDigit h]

theorem spells_number {word : List Char} (h : (Numeral.ofChars? word).isSome = true) :
    Spells word (.number (String.ofList word)) := by
  have hread : (Numeral.read? (String.ofList word)).isSome = true := by
    rwa [Numeral.read?, String.toList_ofList]
  have hnot : isWord word = false := by
    obtain ⟨d, ds, hd, -, hw | ⟨e, es, -, -, hw⟩⟩ := numeral_cases hread
    · rw [← String.toList_ofList (l := word), hw]
      exact isWord_eq_false_of_isDigit hd _
    · rw [← String.toList_ofList (l := word), hw]
      exact isWord_eq_false_of_isDigit hd _
  apply spells_of_text
  · simp
  · rw [Lexeme.text, String.toList_ofList]
  · rw [Lexeme.ofText?, String.toList_ofList, hnot, hread]
    rfl

theorem spells_symbol (mark : Symbol) : Spells mark.text.toList (.symbol mark) := by
  refine ⟨rfl, ?_⟩
  cases mark <;> decide

/-! ### Symbols -/

theorem Lead.char_of_ofChar? {c : Char} {first : Lead} (h : ofChar? c = some first) :
    first.char = c := by
  unfold ofChar? at h
  split at h <;> cases h <;> rfl

theorem Lead.text_of_alone? {first : Lead} {mark : Symbol} (h : first.alone? = some mark) :
    mark.text.toList = [first.char] := by
  cases first <;> cases h <;> rfl

theorem Lead.text_of_pair? {first : Lead} {c : Char} {mark : Symbol}
    (h : first.pair? c = some mark) : mark.text.toList = [first.char, c] := by
  unfold pair? at h
  split at h <;> cases h <;> rfl

theorem text_of_soleSymbol? {c : Char} {mark : Symbol} (h : soleSymbol? c = some mark) :
    mark.text.toList = [c] := by
  unfold soleSymbol? at h
  split at h <;> cases h <;> rfl

/-! ## What may stand between tokens -/

/-- The rest of a block comment in which `depth + 1` opening marks are not yet closed.  Marks are
read from left to right and share no characters. -/
inductive Comment : Nat → List Char → Prop where
  | last : Comment 0 ['*', '/']
  | close {depth : Nat} {rest : List Char} (h : Comment depth rest) :
      Comment (depth + 1) ('*' :: '/' :: rest)
  | nest {depth : Nat} {rest : List Char} (h : Comment (depth + 1) rest) :
      Comment depth ('/' :: '*' :: rest)
  | other {depth : Nat} {c : Char} {rest : List Char}
      (hopen : ¬ ['/', '*'] <+: c :: rest) (hclose : ¬ ['*', '/'] <+: c :: rest)
      (h : Comment depth rest) : Comment depth (c :: rest)

/-- A blank, or a complete comment. -/
inductive Filler : List Char → Prop where
  | blank {c : Char} (h : Text.isBlank c = true) : Filler [c]
  | line {body : List Char} (h : '\n' ∉ body) : Filler ('/' :: '/' :: (body ++ ['\n']))
  | block {body : List Char} (h : Comment 0 body) : Filler ('/' :: '*' :: body)

/-- Nothing but blanks and complete comments. -/
def IsGap (cs : List Char) : Prop :=
  ∃ items : List (List Char), (∀ item ∈ items, Filler item) ∧ cs = items.flatten

/-- A comment up to the end of a text that has no further line. -/
def LastLine (cs : List Char) : Prop := ∃ body, '\n' ∉ body ∧ cs = '/' :: '/' :: body

theorem isGap_nil : IsGap [] := ⟨[], by simp, rfl⟩

theorem IsGap.concat {cs item : List Char} (h : IsGap cs) (hitem : Filler item) :
    IsGap (cs ++ item) := by
  obtain ⟨items, hitems, rfl⟩ := h
  refine ⟨items ++ [item], ?_, by simp⟩
  intro x hx
  rcases List.mem_append.mp hx with hx | hx
  · exact hitems x hx
  · rw [List.mem_singleton.mp hx]
    exact hitem

/-- The characters that a hinge remembers. -/
def Hinge.chars : Hinge → List Char
  | .none => []
  | .slash => ['/']
  | .star => ['*']

/-- The characters after the opening mark of a block comment, with `depth + 1` marks open and
`hinge` remembered: whatever completes the marks that are open completes the comment. -/
def Enters (depth : Nat) (hinge : Hinge) (body : List Char) : Prop :=
  ∀ rest, Comment depth (hinge.chars ++ rest) → Comment 0 (body ++ rest)

/-! ## Texts made up of tokens and gaps -/

/-- The characters are made up of blanks, comments and the tokens, in order, and the spans of the
tokens say where they stand. -/
inductive Laid : List Char → List Token → Prop where
  | nil : Laid [] []
  | filler {cs item : List Char} {ts : List Token} (h : Laid cs ts) (hitem : Filler item) :
      Laid (cs ++ item) ts
  | token {cs word : List Char} {ts : List Token} {lexeme : Lexeme} (h : Laid cs ts)
      (hword : Spells word lexeme) :
      Laid (cs ++ word) (ts ++ [⟨lexeme, ⟨cs.length, cs.length + word.length⟩⟩])

/-! ## What the machine has read -/

/-- What the characters `piece` amount to, if the first of them stands at index `i`. -/
def Mode.Holds (i : Nat) (piece : List Char) : Mode → Prop
  | gap => piece = []
  | word start read => start = i ∧ piece = read.reverse ∧ isWord piece = true
  | digits start read => start = i ∧ piece = read.reverse ∧ Numeral.isRun piece = true
  | point start read => start = i ∧ piece = read.reverse ++ ['.'] ∧
      Numeral.isRun read.reverse = true
  | fraction start read => start = i ∧ piece = read.reverse ∧ ∃ whole part,
      piece = whole ++ '.' :: part ∧ Numeral.isRun whole = true ∧ Numeral.isRun part = true
  | quoted start quote read => start = i ∧ isQuote quote = true ∧ ∃ interior,
      piece = quote :: interior ∧ unquote quote interior = some read.reverse
  | escaped start quote read => start = i ∧ isQuote quote = true ∧ ∃ interior,
      piece = quote :: (interior ++ ['\\']) ∧ unquote quote interior = some read.reverse
  | slash start => start = i ∧ piece = ['/']
  | lineComment => LastLine piece
  | blockComment _ depth hinge => ∃ body, piece = '/' :: '*' :: body ∧ Enters depth hinge body
  | lead start first => start = i ∧ piece = [first.char]

/-- The machine has read the text up to the mode, and the tokens are finished. -/
def Follows (text : List Char) (ts : List Token) (mode : Mode) : Prop :=
  ∃ cs piece, text = cs ++ piece ∧ Laid cs ts ∧ mode.Holds cs.length piece

theorem Laid.follows {cs : List Char} {ts : List Token} (h : Laid cs ts) : Follows cs ts .gap :=
  ⟨cs, [], by simp, h, rfl⟩

/-! ### Inside quotes and comments -/

theorem unquote_cons {quote c : Char} (hquote : c ≠ quote) (hback : c ≠ '\\') (cs : List Char) :
    unquote quote (c :: cs) = (unquote quote cs).map (c :: ·) := by
  rw [unquote.eq_def]
  simp [hquote, hback]

theorem unquote_append {quote : Char} {as xs : List Char} (h : unquote quote as = some xs)
    (bs : List Char) : unquote quote (as ++ bs) = (unquote quote bs).map (xs ++ ·) := by
  fun_induction unquote quote as generalizing xs with
  | case1 =>
    cases h
    simp
  | case2 cs => cases h
  | case3 hquote => cases h
  | case4 d cs hquote ih =>
    obtain ⟨ys, hys, rfl⟩ := Option.map_eq_some_iff.mp h
    simp [unquote, hquote, ih hys, Function.comp_def]
  | case5 c cs hquote hback ih =>
    obtain ⟨ys, hys, rfl⟩ := Option.map_eq_some_iff.mp h
    rw [List.cons_append, unquote_cons hquote hback, ih hys]
    simp [Function.comp_def]

theorem unquote_escape {quote : Char} (hquote : isQuote quote = true) (c : Char) :
    unquote quote ['\\', c] = some [unescape c] := by
  have hback : '\\' ≠ quote := by
    rintro rfl
    cases hquote
  simp [unquote, hback]

/-- What a character does inside a block comment. -/
theorem enters_of_stepComment {start depth : Nat} {hinge : Hinge} {body : List Char}
    (h : Enters depth hinge body) (c : Char) :
    (stepComment start depth hinge c = .gap ∧ Comment 0 (body ++ [c])) ∨
    ∃ depth' hinge', stepComment start depth hinge c = .blockComment start depth' hinge' ∧
      Enters depth' hinge' (body ++ [c]) := by
  have hnext : ∀ {depth' : Nat} {hinge' : Hinge},
      (∀ rest, Comment depth' (hinge'.chars ++ rest) → Comment depth (hinge.chars ++ c :: rest)) →
      Enters depth' hinge' (body ++ [c]) := by
    intro depth' hinge' hstep rest hrest
    rw [List.append_assoc]
    exact h (c :: rest) (hstep rest hrest)
  unfold stepComment
  split
  · -- `/*` opens a mark
    exact .inr ⟨_, _, rfl, hnext fun rest hrest => .nest hrest⟩
  · -- `*/` closes one
    split
    · exact .inl ⟨rfl, h _ .last⟩
    · exact .inr ⟨_, _, rfl, hnext fun rest hrest => .close hrest⟩
  · -- a slash that closes nothing may open a mark
    refine .inr ⟨_, _, rfl, hnext fun rest hrest => ?_⟩
    cases hinge with
    | none => exact hrest
    | slash => exact .other (by simp) (by simp) hrest
    | star => contradiction
  · refine .inr ⟨_, _, rfl, hnext fun rest hrest => ?_⟩
    cases hinge with
    | none => exact hrest
    | slash => contradiction
    | star => exact .other (by simp) (by simp) hrest
  · next hslash hstar _ _ =>
    refine .inr ⟨_, _, rfl, hnext fun rest hrest => ?_⟩
    have hplain : Comment depth (c :: rest) :=
      .other (by simp [Ne.symm hslash]) (by simp [Ne.symm hstar]) hrest
    cases hinge with
    | none => exact hplain
    | slash => exact .other (by simp [Ne.symm hstar]) (by simp) hplain
    | star => exact .other (by simp) (by simp [Ne.symm hslash]) hplain

/-! ### What a character keeps -/

theorem isWord_concat {cs : List Char} {c : Char} (h : isWord cs = true)
    (hc : isWordPart c = true) : isWord (cs ++ [c]) = true := by
  cases cs with
  | nil => cases h
  | cons d ds =>
    simp only [isWord, Bool.and_eq_true] at h
    simp [isWord, h.1, h.2, hc]

theorem isRun_concat {cs : List Char} {c : Char} (h : Numeral.isRun cs = true)
    (hc : c.isDigit = true) : Numeral.isRun (cs ++ [c]) = true := by
  simp_all [Numeral.isRun]

theorem isRun_singleton {c : Char} (hc : c.isDigit = true) : Numeral.isRun [c] = true := by
  simp [Numeral.isRun, hc]

/-- A character that continues what was begun. -/
theorem Follows.extend {text : List Char} {us ts : List Token} {mode mode' : Mode} {c : Char}
    (h : Follows text us mode) (hextend : mode.extend? text.length c = some (ts, mode')) :
    Follows (text ++ [c]) (us ++ ts) mode' := by
  obtain ⟨cs, piece, rfl, hlaid, hholds⟩ := h
  -- the piece goes on, and no token is finished
  have hon : ∀ {mode' : Mode}, mode'.Holds cs.length (piece ++ [c]) →
      Follows (cs ++ piece ++ [c]) (us ++ []) mode' := by
    intro mode' hholds'
    exact ⟨cs, piece ++ [c], by simp, by simpa using hlaid, hholds'⟩
  -- the piece is finished, and was a token
  have hdone : ∀ {lexeme : Lexeme}, Spells (piece ++ [c]) lexeme →
      Follows (cs ++ piece ++ [c])
        (us ++ [⟨lexeme, ⟨cs.length, (cs ++ piece).length + 1⟩⟩]) .gap := by
    intro lexeme hspells
    have htoken := (hlaid.token hspells).follows
    simpa [Nat.add_assoc] using htoken
  cases mode with
  | gap => cases hextend
  | word start read =>
    obtain ⟨rfl, rfl, hword⟩ := hholds
    simp only [Mode.extend?] at hextend
    split at hextend
    · next hc =>
      cases hextend
      exact hon ⟨rfl, by simp, isWord_concat hword hc⟩
    · cases hextend
  | digits start read =>
    obtain ⟨rfl, rfl, hrun⟩ := hholds
    simp only [Mode.extend?] at hextend
    split at hextend
    · next hc =>
      cases hextend
      exact hon ⟨rfl, by simp, isRun_concat hrun hc⟩
    · split at hextend
      · next hc =>
        cases hextend
        subst hc
        exact hon ⟨rfl, rfl, hrun⟩
      · cases hextend
  | point start read =>
    obtain ⟨rfl, rfl, hrun⟩ := hholds
    simp only [Mode.extend?] at hextend
    split at hextend
    · next hc =>
      cases hextend
      exact hon ⟨rfl, by simp, read.reverse, [c], by simp, hrun, isRun_singleton hc⟩
    · cases hextend
  | fraction start read =>
    obtain ⟨rfl, rfl, whole, part, heq, hwhole, hpart⟩ := hholds
    simp only [Mode.extend?] at hextend
    split at hextend
    · next hc =>
      cases hextend
      exact hon ⟨rfl, by simp, whole, part ++ [c], by simp [heq], hwhole, isRun_concat hpart hc⟩
    · cases hextend
  | quoted start quote read =>
    obtain ⟨rfl, hquote, interior, rfl, hinterior⟩ := hholds
    simp only [Mode.extend?] at hextend
    split at hextend
    · next hc =>
      cases hextend
      subst hc
      exact hdone ⟨c, interior, hquote, rfl, by simpa [spell] using hinterior⟩
    · split at hextend
      · next hc =>
        cases hextend
        subst hc
        exact hon ⟨rfl, hquote, interior, rfl, hinterior⟩
      · next hc hback =>
        cases hextend
        refine hon ⟨rfl, hquote, interior ++ [c], rfl, ?_⟩
        rw [unquote_append hinterior, unquote_cons hc hback]
        simp [unquote]
  | escaped start quote read =>
    obtain ⟨rfl, hquote, interior, rfl, hinterior⟩ := hholds
    cases hextend
    refine hon ⟨rfl, hquote, interior ++ ['\\', c], by simp, ?_⟩
    rw [unquote_append hinterior, unquote_escape hquote]
    simp
  | slash start =>
    obtain ⟨rfl, rfl⟩ := hholds
    simp only [Mode.extend?] at hextend
    split at hextend
    · next hc =>
      cases hextend
      subst hc
      exact hon ⟨[], by simp, rfl⟩
    · split at hextend
      · next hc =>
        cases hextend
        subst hc
        exact hon ⟨[], rfl, fun rest hrest => hrest⟩
      · cases hextend
  | lineComment =>
    obtain ⟨body, hbody, rfl⟩ := hholds
    simp only [Mode.extend?] at hextend
    split at hextend
    · cases hextend
    · next hc =>
      cases hextend
      refine hon ⟨body ++ [c], ?_, rfl⟩
      simp [hbody, Ne.symm hc]
  | blockComment start depth hinge =>
    obtain ⟨body, rfl, henters⟩ := hholds
    cases hextend
    rcases enters_of_stepComment henters c with ⟨hstep, hbody⟩ | ⟨depth', hinge', hstep, henters'⟩
    · rw [hstep]
      have hfiller := (hlaid.filler (.block hbody)).follows
      simpa using hfiller
    · rw [hstep]
      exact hon ⟨body ++ [c], rfl, henters'⟩
  | lead start first =>
    obtain ⟨rfl, rfl⟩ := hholds
    simp only [Mode.extend?] at hextend
    split at hextend
    · next mark hpair =>
      cases hextend
      apply hdone
      rw [List.singleton_append, ← Lead.text_of_pair? hpair]
      exact spells_symbol mark
    · cases hextend

/-- A character that begins something new. -/
theorem Laid.begin {text : List Char} {us ts : List Token} {mode : Mode} {c : Char}
    (h : Laid text us) (hbegin : begin text.length c = .ok (ts, mode)) :
    Follows (text ++ [c]) (us ++ ts) mode := by
  have hon : ∀ {mode : Mode}, mode.Holds text.length [c] →
      Follows (text ++ [c]) (us ++ []) mode := by
    intro mode hholds
    exact ⟨text, [c], rfl, by simpa using h, hholds⟩
  unfold Lexer.begin at hbegin
  split at hbegin
  · next hc =>
    cases hbegin
    simpa using (h.filler (.blank hc)).follows
  split at hbegin
  · next hc =>
    cases hbegin
    exact hon ⟨rfl, rfl, by simp [isWord, hc]⟩
  split at hbegin
  · next hc =>
    cases hbegin
    exact hon ⟨rfl, rfl, isRun_singleton hc⟩
  split at hbegin
  · next hc =>
    cases hbegin
    exact hon ⟨rfl, hc, [], rfl, rfl⟩
  split at hbegin
  · next hc =>
    cases hbegin
    subst hc
    exact hon ⟨rfl, rfl⟩
  split at hbegin
  · next first hfirst =>
    cases hbegin
    exact hon ⟨rfl, by rw [Lead.char_of_ofChar? hfirst]⟩
  split at hbegin
  · next mark hmark =>
    cases hbegin
    have hspells := spells_symbol mark
    rw [text_of_soleSymbol? hmark] at hspells
    exact (h.token hspells).follows
  · cases hbegin

/-- Digits are split off a text as far as they go. -/
theorem split_of_isRun {whole : List Char} (hwhole : Numeral.isRun whole = true)
    (rest : List Char) (hrest : ∀ c ∈ rest.head?, c.isDigit = false) :
    (whole ++ rest).takeWhile Char.isDigit = whole ∧
      (whole ++ rest).dropWhile Char.isDigit = rest := by
  have hdigits : ∀ c ∈ whole, c.isDigit = true := by
    simp only [Numeral.isRun, Bool.and_eq_true, List.all_eq_true] at hwhole
    exact hwhole.2
  rw [List.takeWhile_append_of_pos hdigits, List.dropWhile_append_of_pos hdigits]
  cases rest with
  | nil => simp
  | cons c rest =>
    have hc : c.isDigit = false := hrest c rfl
    simp [hc]

theorem isSome_ofChars?_of_isRun {cs : List Char} (h : Numeral.isRun cs = true) :
    (Numeral.ofChars? cs).isSome = true := by
  have hsplit := split_of_isRun h [] (by simp)
  rw [List.append_nil] at hsplit
  simp only [Numeral.ofChars?, hsplit.1, hsplit.2, h]
  rfl

theorem isSome_ofChars?_fraction {whole part : List Char} (hwhole : Numeral.isRun whole = true)
    (hpart : Numeral.isRun part = true) :
    (Numeral.ofChars? (whole ++ '.' :: part)).isSome = true := by
  have hsplit := split_of_isRun hwhole ('.' :: part) (by simp [Char.isDigit])
  simp only [Numeral.ofChars?, hsplit.1, hsplit.2, hwhole, hpart]
  rfl

/-- What was begun, once nothing continues it.  A comment up to the end of the line is no part of
this, since the line end that closes it belongs to the gap. -/
theorem Follows.close {text : List Char} {us ts : List Token} {mode : Mode}
    (h : Follows text us mode) (hclose : mode.close text.length = .ok ts)
    (hline : mode ≠ .lineComment) : Laid text (us ++ ts) := by
  obtain ⟨cs, piece, rfl, hlaid, hholds⟩ := h
  have hdone : ∀ {lexeme : Lexeme}, Spells piece lexeme →
      Laid (cs ++ piece) (us ++ [⟨lexeme, ⟨cs.length, (cs ++ piece).length⟩⟩]) := by
    intro lexeme hspells
    rw [List.length_append]
    exact hlaid.token hspells
  cases mode with
  | gap =>
    cases hholds
    cases hclose
    simpa using hlaid
  | word start read =>
    obtain ⟨rfl, rfl, hword⟩ := hholds
    cases hclose
    exact hdone (spells_ofWord hword)
  | digits start read =>
    obtain ⟨rfl, rfl, hrun⟩ := hholds
    cases hclose
    exact hdone (spells_number (isSome_ofChars?_of_isRun hrun))
  | point start read =>
    obtain ⟨rfl, rfl, hrun⟩ := hholds
    cases hclose
    have hnumber := hlaid.token (spells_number (isSome_ofChars?_of_isRun hrun))
    have hboth := hnumber.token (spells_symbol .dot)
    simpa [spell, Symbol.text, Nat.add_assoc] using hboth
  | fraction start read =>
    obtain ⟨rfl, rfl, whole, part, heq, hwhole, hpart⟩ := hholds
    cases hclose
    refine hdone (spells_number ?_)
    rw [heq]
    exact isSome_ofChars?_fraction hwhole hpart
  | quoted | escaped | blockComment => cases hclose
  | slash start =>
    obtain ⟨rfl, rfl⟩ := hholds
    cases hclose
    exact hdone (spells_symbol .slash)
  | lineComment => exact absurd rfl hline
  | lead start first =>
    obtain ⟨rfl, rfl⟩ := hholds
    simp only [Mode.close] at hclose
    split at hclose
    · next mark halone =>
      cases hclose
      apply hdone
      rw [← Lead.text_of_alone? halone]
      exact spells_symbol mark
    · cases hclose

/-- The line end that closes a comment. -/
theorem Follows.newline {text : List Char} {us : List Token} (h : Follows text us .lineComment) :
    Follows (text ++ ['\n']) us .gap := by
  obtain ⟨cs, piece, rfl, hlaid, body, hbody, rfl⟩ := h
  have hfiller := (hlaid.filler (.line hbody)).follows
  simpa using hfiller

/-- **What a character keeps.** -/
theorem follows_of_step {text : List Char} {l l' : Lexer} {c : Char}
    (h : Follows text l.done.reverse l.mode) (hindex : l.index = text.length)
    (hstep : l.step c = .ok l') : Follows (text ++ [c]) l'.done.reverse l'.mode := by
  rcases step_cases hstep with
    ⟨ts, mode, hextend, rfl⟩ | ⟨ended, ts, mode, hextend, hclose, hbegin, rfl⟩
  · rw [hindex] at hextend
    simpa using h.extend hextend
  rw [hindex] at hclose hbegin
  by_cases hline : l.mode = .lineComment
  · have hc : c = '\n' := by
      rw [hline, Mode.extend?] at hextend
      by_cases hc : c = '\n'
      · exact hc
      · simp [hc] at hextend
    rw [hline] at hclose h
    subst hc
    cases hclose
    cases hbegin
    simpa using h.newline
  · simpa using (h.close hclose hline).begin hbegin

/-- **What a text keeps.** -/
theorem follows_of_feed {text cs : List Char} {l l' : Lexer}
    (h : Follows text l.done.reverse l.mode) (hindex : l.index = text.length)
    (hfeed : l.feed cs = .ok l') : Follows (text ++ cs) l'.done.reverse l'.mode := by
  induction cs generalizing l text with
  | nil =>
    cases hfeed
    simpa using h
  | cons c cs ih =>
    rw [feed_eq_bind] at hfeed
    obtain ⟨l₁, hstep, hrest⟩ := exists_of_bind hfeed
    have hindex₁ : l₁.index = (text ++ [c]).length := by
      rw [index_of_step hstep, hindex, List.length_append]
      rfl
    have hall := ih (follows_of_step h hindex hstep) hindex₁ hrest
    rwa [List.append_assoc] at hall

/-- How a text is made up that has tokens. -/
theorem laid_of_scan {cs : List Char} {ts : List Token} (h : scan cs = .ok ts) :
    ∃ front tail, cs = front ++ tail ∧ Laid front ts ∧ (tail = [] ∨ LastLine tail) := by
  obtain ⟨l, hfeed, hfinish⟩ := exists_of_bind h
  obtain ⟨ended, hclose, heq⟩ := exists_of_bind hfinish
  cases heq
  have hfollows := follows_of_feed Laid.nil.follows rfl hfeed
  rw [List.nil_append] at hfollows
  have hindex := index_of_start_feed hfeed
  by_cases hline : l.mode = .lineComment
  · rw [hline] at hclose hfollows
    obtain ⟨front, tail, rfl, hlaid, htail⟩ := hfollows
    cases hclose
    exact ⟨front, tail, rfl, by simpa using hlaid, .inr htail⟩
  · rw [hindex] at hclose
    exact ⟨cs, [], by simp, hfollows.close hclose hline, .inl rfl⟩

/-! ## Spans and gaps -/

theorem length_pos_of_spells {word : List Char} {lexeme : Lexeme} (h : Spells word lexeme) :
    0 < word.length := by
  refine List.length_pos_iff.mpr ?_
  rintro rfl
  have hempty : ∀ {s : String} {l : Lexeme}, [] = s.toList → Lexeme.ofText? s ≠ some l := by
    intro s l hs
    obtain rfl : s = "" := String.toList_eq_nil_iff.mp hs.symm
    have hnone : Lexeme.ofText? "" = none := by decide
    simp [hnone]
  cases lexeme with
  | quoted content =>
    obtain ⟨quote, interior, -, hword, -⟩ := h
    cases hword
  | identifier | number | keyword | symbol | endOfInput => exact hempty h.1 h.2

theorem slice_append {s : Span} {cs : List Char} (h : s.stop ≤ cs.length) (ds : List Char) :
    s.slice (cs ++ ds) = s.slice cs := by
  by_cases hstart : s.start ≤ cs.length
  · have hshort : s.stop - s.start ≤ (cs.drop s.start).length := by
      rw [List.length_drop]
      omega
    simp only [Span.slice, List.extract_eq_take_drop]
    rw [List.drop_append_of_le_length hstart, List.take_append_of_le_length hshort]
  · have hempty : s.stop - s.start = 0 := by omega
    simp only [Span.slice, List.extract_eq_take_drop, hempty, List.take_zero]

/-- A stretch up to the end grows with the text. -/
theorem slice_grow {a : Nat} {cs : List Char} (h : a ≤ cs.length) (ds : List Char) :
    Span.slice ⟨a, (cs ++ ds).length⟩ (cs ++ ds) = Span.slice ⟨a, cs.length⟩ cs ++ ds := by
  simp only [Span.slice, List.extract_eq_take_drop]
  rw [List.drop_append_of_le_length h, List.take_of_length_le, List.take_of_length_le]
  · simp
  · simp only [List.length_append, List.length_drop]
    omega

theorem slice_end (cs word : List Char) :
    Span.slice ⟨cs.length, cs.length + word.length⟩ (cs ++ word) = word := by
  simp [Span.slice]

/-- Where the tokens `before` end. -/
def leftEdge (before : List Token) : Nat := (before.getLast?.map fun t => t.span.stop).getD 0

/-- Where the tokens `after` begin, in a text of `n` characters. -/
def rightEdge (n : Nat) (after : List Token) : Nat :=
  (after.head?.map fun t => t.span.start).getD n

/-- Every token stands in the text, and has a character. -/
theorem Laid.within {cs : List Char} {ts : List Token} (h : Laid cs ts) :
    ∀ t ∈ ts, t.span.start < t.span.stop ∧ t.span.stop ≤ cs.length := by
  induction h with
  | nil => simp
  | @filler cs item ts h hitem ih =>
    intro t ht
    have := ih t ht
    rw [List.length_append]
    omega
  | @token cs word ts lexeme h hword ih =>
    intro t ht
    rw [List.length_append]
    rcases List.mem_append.mp ht with ht | ht
    · have := ih t ht
      omega
    · rw [List.mem_singleton.mp ht]
      have := length_pos_of_spells hword
      dsimp only
      omega

/-- Every token ends before the next begins. -/
theorem Laid.pairwise {cs : List Char} {ts : List Token} (h : Laid cs ts) :
    ts.Pairwise fun t u => t.span.stop ≤ u.span.start := by
  induction h with
  | nil => exact .nil
  | filler h hitem ih => exact ih
  | @token cs word ts lexeme h hword ih =>
    refine List.pairwise_append.mpr ⟨ih, by simp, ?_⟩
    intro t ht u hu
    rw [List.mem_singleton.mp hu]
    exact (h.within t ht).2

/-- Every token is spelled by the characters that it spans. -/
theorem Laid.spells {cs : List Char} {ts : List Token} (h : Laid cs ts) :
    ∀ t ∈ ts, Spells (t.span.slice cs) t.lexeme := by
  induction h with
  | nil => simp
  | @filler cs item ts h hitem ih =>
    intro t ht
    rw [slice_append (h.within t ht).2]
    exact ih t ht
  | @token cs word ts lexeme h hword ih =>
    intro t ht
    rcases List.mem_append.mp ht with ht | ht
    · rw [slice_append (h.within t ht).2]
      exact ih t ht
    · rw [List.mem_singleton.mp ht, slice_end]
      exact hword

theorem Laid.leftEdge_le {cs : List Char} {ts : List Token} (h : Laid cs ts) :
    leftEdge ts ≤ cs.length := by
  unfold leftEdge
  cases hlast : ts.getLast? with
  | none => simp
  | some t => exact (h.within t (List.mem_of_getLast? hlast)).2

theorem Laid.rightEdge_le {cs : List Char} {ts before after : List Token} (h : Laid cs ts)
    (heq : ts = before ++ after) : rightEdge cs.length after ≤ cs.length := by
  cases after with
  | nil => exact Nat.le_refl _
  | cons t after =>
    have hspan := h.within t (by simp [heq])
    show t.span.start ≤ cs.length
    omega

/-- There is a gap before, between and after the tokens. -/
theorem Laid.isGap {cs : List Char} {ts : List Token} (h : Laid cs ts) :
    ∀ before after, ts = before ++ after →
      IsGap (Span.slice ⟨leftEdge before, rightEdge cs.length after⟩ cs) := by
  induction h with
  | nil =>
    intro before after heq
    obtain ⟨rfl, rfl⟩ := List.append_eq_nil_iff.mp heq.symm
    exact isGap_nil
  | @filler cs item ts h hitem ih =>
    intro before after heq
    have hgap := ih before after heq
    cases after with
    | nil =>
      -- the gap after the last token grows
      rw [List.append_nil] at heq
      subst heq
      show IsGap (Span.slice ⟨leftEdge ts, (cs ++ item).length⟩ (cs ++ item))
      rw [slice_grow h.leftEdge_le]
      exact hgap.concat hitem
    | cons t after =>
      have hle : t.span.start ≤ cs.length := h.rightEdge_le heq
      show IsGap (Span.slice ⟨leftEdge before, t.span.start⟩ (cs ++ item))
      rw [slice_append hle]
      exact hgap
  | @token cs word ts lexeme h hword ih =>
    intro before after heq
    rcases List.eq_nil_or_concat after with rfl | ⟨after, t, rfl⟩
    · -- nothing follows the new token yet
      rw [List.append_nil] at heq
      subst heq
      have hempty :
          Span.slice ⟨cs.length + word.length, (cs ++ word).length⟩ (cs ++ word) = [] := by
        simp [Span.slice]
      simp only [leftEdge, rightEdge, List.getLast?_append, List.getLast?_singleton]
      exact hempty ▸ isGap_nil
    · -- the new token is the right edge of the gap that was the last
      rw [List.concat_eq_append, ← List.append_assoc] at heq
      obtain ⟨hts, htoken⟩ := List.append_inj' heq rfl
      cases htoken
      have hedge : rightEdge (cs ++ word).length
          (after.concat ⟨lexeme, ⟨cs.length, cs.length + word.length⟩⟩) =
          rightEdge cs.length after := by
        cases after <;> rfl
      rw [hedge, slice_append (h.rightEdge_le hts)]
      exact ih before after hts

/-- The tokens `ts` and an end mark account for every character of the source. -/
structure Lossless (source : String) (tokens ts : List Token) : Prop where
  /-- The end mark is the last token, and the only one. -/
  last : tokens = ts ++ [.endAt source.length]
  unmarked : ∀ t ∈ ts, t.lexeme ≠ .endOfInput
  /-- The other tokens have characters, in order and without overlap. -/
  within : ∀ t ∈ ts, t.span.start < t.span.stop ∧ t.span.stop ≤ source.length
  ordered : ts.Pairwise fun t u => t.span.stop ≤ u.span.start
  /-- Each of them is read from exactly the characters that it spans. -/
  spelled : ∀ t ∈ ts, Spells (t.span.slice source.toList) t.lexeme
  /-- Before, between and after them there are blanks and complete comments, where a comment up to
  the end of the line is also complete at the end of the text. -/
  gaps : ∀ before after, ts = before ++ after → ∃ gap tail,
    Span.slice ⟨leftEdge before, rightEdge source.length after⟩ source.toList = gap ++ tail ∧
      IsGap gap ∧ (tail = [] ∨ after = [] ∧ LastLine tail)

end Lexer

open Lexer in
/-- **Lexing is lossless.** -/
theorem tokenize_lossless {source : String} {tokens : List Token}
    (h : tokenize source = .ok tokens) : ∃ ts, Lossless source tokens ts := by
  obtain ⟨ts, hscan, heq⟩ := exists_of_bind h
  cases heq
  obtain ⟨front, tail, hsource, hlaid, htail⟩ := laid_of_scan hscan
  have hlength : source.length = front.length + tail.length := by
    rw [← String.length_toList, hsource, List.length_append]
  refine ⟨ts, rfl, unmarked_of_scan hscan, ?within, hlaid.pairwise, ?spelled, ?gaps⟩
  case within =>
    intro t ht
    have hwithin := hlaid.within t ht
    omega
  case spelled =>
    intro t ht
    rw [hsource, slice_append (hlaid.within t ht).2]
    exact hlaid.spells t ht
  case gaps =>
    intro before after heq
    have hgap := hlaid.isGap before after heq
    cases after with
    | nil =>
      rw [List.append_nil] at heq
      subst heq
      refine ⟨_, tail, ?_, hgap, htail.imp_right fun htail => ⟨rfl, htail⟩⟩
      show Span.slice ⟨leftEdge ts, source.length⟩ source.toList = _
      rw [← String.length_toList, hsource]
      exact slice_grow hlaid.leftEdge_le tail
    | cons t after =>
      refine ⟨_, [], ?_, hgap, .inl rfl⟩
      rw [List.append_nil, hsource]
      exact slice_append (hlaid.rightEdge_le heq) tail

/-- A numeral before a point, a nested comment whose marks share characters, a quote that is
escaped, a keyword, and a comment that the text ends with. -/
theorem lossless_of_shared_marks :
    ∃ tokens, tokenize "1./*/**/ **/<='\\''let//" = .ok tokens ∧
      ∃ ts, Lexer.Lossless "1./*/**/ **/<='\\''let//" tokens ts :=
  ⟨[⟨.number "1", ⟨0, 1⟩⟩, ⟨.symbol .dot, ⟨1, 2⟩⟩, ⟨.symbol .lessEqual, ⟨12, 14⟩⟩,
    ⟨.quoted "'", ⟨14, 18⟩⟩, ⟨.keyword .letWord, ⟨18, 21⟩⟩, .endAt 23], rfl, tokenize_lossless rfl⟩

end Script
