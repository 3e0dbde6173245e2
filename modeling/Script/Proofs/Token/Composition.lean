import Script.Proofs.Printing.Lexing

/-!
# Lexing is compositional at line ends

A line end closes whatever a text may end with: a word, a numeral, half of a symbol, or the comment
up to the end of the line.  From there on the machine is back at its beginning, except that it
counts further.  So the tokens of a text that is put after a line end are its own tokens, shifted.

## Main definitions

* `Lexer.moved`: a reading after characters have been put in front of the text.
* `Lexer.Mode.shift`, `Lexer.shift`: the machine after characters have been put in front of the
  text.

## Main results

* `Lexer.feed_shift`: the machine does the same wherever a text begins.
* `Lexer.scan_newline`: the tokens of two texts with a line end between them.
* `tokenize_newline`: the same of source texts, with their end marks.
* `Lexer.unmarked_of_scan`: the tokens of a text are no end marks.
-/

namespace Script

/-- The same error after `k` characters have been put in front of the text. -/
def LexError.shift (k : Nat) (e : LexError) : LexError := ⟨e.cause, e.index + k⟩

namespace Lexer

variable {α β γ δ : Type} {k : Nat}

/-! ## Moving a text -/

/-- What becomes of a reading when `k` characters are put in front of the text: its result changes
as `f` says, and an error is charged to a later character. -/
def moved (k : Nat) (f : α → β) : Except LexError α → Except LexError β
  | .ok a => .ok (f a)
  | .error e => .error (e.shift k)

theorem moved_bind {f : α → β} {g : γ → δ} {x : Except LexError α} {x' : Except LexError β}
    {next : α → Except LexError γ} {next' : β → Except LexError δ} (hx : x' = moved k f x)
    (hnext : ∀ a, x = .ok a → next' (f a) = moved k g (next a)) :
    (x' >>= next') = moved k g (x >>= next) := by
  subst hx
  cases x with
  | error e => rfl
  | ok a => exact hnext a rfl

/-- Two steps succeed if the first does, and then the second from there. -/
theorem exists_of_bind {x : Except LexError α} {next : α → Except LexError β} {b : β}
    (h : (x >>= next) = .ok b) : ∃ a, x = .ok a ∧ next a = .ok b := by
  cases x with
  | error e => cases h
  | ok a => exact ⟨a, rfl, h⟩

/-- The same mode after `k` characters have been put in front of the text. -/
def Mode.shift (k : Nat) : Mode → Mode
  | gap => gap
  | word start read => word (start + k) read
  | digits start read => digits (start + k) read
  | point start read => point (start + k) read
  | fraction start read => fraction (start + k) read
  | quoted start quote read => quoted (start + k) quote read
  | escaped start quote read => escaped (start + k) quote read
  | slash start => slash (start + k)
  | lineComment => lineComment
  | blockComment start depth hinge => blockComment (start + k) depth hinge
  | lead start first => lead (start + k) first

/-- Tokens and a mode after `k` characters have been put in front of the text. -/
def shiftBoth (k : Nat) (p : List Token × Mode) : List Token × Mode :=
  (p.1.map (Token.shift k), p.2.shift k)

/-- The machine after `k` characters have been put in front of the text, which are the tokens
`before`, the last one first. -/
def shift (k : Nat) (before : List Token) (l : Lexer) : Lexer :=
  ⟨l.index + k, l.mode.shift k, l.done.map (Token.shift k) ++ before⟩

theorem stepComment_shift (start depth : Nat) (hinge : Hinge) (c : Char) :
    stepComment (start + k) depth hinge c = (stepComment start depth hinge c).shift k := by
  unfold stepComment
  split
  · rfl
  · split <;> rfl
  · rfl
  · rfl
  · rfl

/-- How a character continues a mode does not depend on where the text begins. -/
theorem Mode.extend?_shift (mode : Mode) (i : Nat) (c : Char) :
    (mode.shift k).extend? (i + k) c = (mode.extend? i c).map (shiftBoth k) := by
  have hindex : i + k + 1 = i + 1 + k := by omega
  cases mode with
  | gap => rfl
  | word start read | point start read | fraction start read | lineComment =>
    simp only [Mode.shift, extend?]
    split <;> rfl
  | digits start read =>
    simp only [Mode.shift, extend?]
    split
    · rfl
    · split <;> rfl
  | quoted start quote read =>
    simp only [Mode.shift, extend?, hindex]
    split
    · rfl
    · split <;> rfl
  | escaped start quote read => rfl
  | slash start =>
    simp only [Mode.shift, extend?]
    split
    · rfl
    · split <;> rfl
  | blockComment start depth hinge =>
    simp only [Mode.shift, extend?, stepComment_shift]
    rfl
  | lead start first =>
    simp only [Mode.shift, extend?, hindex]
    cases first.pair? c <;> rfl

/-- What a mode amounts to does not depend on where the text begins.  A mode other than a gap has
read a character. -/
theorem Mode.close_shift {mode : Mode} {i : Nat} (hi : i = 0 → mode = .gap) :
    (mode.shift k).close (i + k) = moved k (List.map (Token.shift k)) (mode.close i) := by
  cases mode with
  | gap | word _ _ | digits _ _ | fraction _ _ | quoted _ _ _ | escaped _ _ _ | slash _
  | lineComment | blockComment _ _ _ => rfl
  | point start read =>
    have hpos : i + k - 1 = i - 1 + k := by
      have hne : i ≠ 0 := fun hzero => nomatch hi hzero
      omega
    simp only [Mode.shift, close, hpos]
    rfl
  | lead start first =>
    simp only [Mode.shift, close]
    cases first.alone? <;> rfl

/-- What a character begins does not depend on where the text begins. -/
theorem begin_shift (i : Nat) (c : Char) :
    begin (i + k) c = moved k (shiftBoth k) (begin i c) := by
  have hindex : i + k + 1 = i + 1 + k := by omega
  unfold begin
  split
  · rfl
  split
  · rfl
  split
  · rfl
  split
  · rfl
  split
  · rfl
  cases Lead.ofChar? c with
  | some first => rfl
  | none =>
    cases soleSymbol? c with
    | some mark => simp only [hindex]; rfl
    | none => rfl

/-- A machine that has read no character has begun nothing. -/
def Sound (l : Lexer) : Prop := l.index = 0 → l.mode = .gap

theorem sound_of_index {l : Lexer} (h : l.index ≠ 0) : l.Sound := fun hzero => absurd hzero h

/-- **What a character does.**  It continues what was begun, or it ends it and begins anew. -/
theorem step_cases {l l' : Lexer} {c : Char} (h : l.step c = .ok l') :
    (∃ ts mode, l.mode.extend? l.index c = some (ts, mode) ∧
      l' = ⟨l.index + 1, mode, ts.reverse ++ l.done⟩) ∨
    (∃ ended ts mode, l.mode.extend? l.index c = none ∧ l.mode.close l.index = .ok ended ∧
      begin l.index c = .ok (ts, mode) ∧
      l' = ⟨l.index + 1, mode, ts.reverse ++ (ended.reverse ++ l.done)⟩) := by
  unfold step at h
  cases hextend : l.mode.extend? l.index c with
  | some p =>
    rw [hextend] at h
    cases h
    exact .inl ⟨p.1, p.2, rfl, rfl⟩
  | none =>
    rw [hextend] at h
    obtain ⟨ended, hclose, h⟩ := exists_of_bind h
    obtain ⟨p, hbegin, h⟩ := exists_of_bind h
    cases h
    exact .inr ⟨ended, p.1, p.2, rfl, hclose, hbegin, rfl⟩

theorem index_of_step {l l' : Lexer} {c : Char} (h : l.step c = .ok l') :
    l'.index = l.index + 1 := by
  rcases step_cases h with ⟨_, _, -, rfl⟩ | ⟨_, _, _, -, -, -, rfl⟩
  · rfl
  · rfl

/-- **One character.** -/
theorem step_shift (before : List Token) {l : Lexer} (hl : l.Sound) (c : Char) :
    (l.shift k before).step c = moved k (shift k before) (l.step c) := by
  have hindex : l.index + k + 1 = l.index + 1 + k := by omega
  unfold step
  simp only [shift, Mode.extend?_shift]
  cases l.mode.extend? l.index c with
  | some p => simp [moved, shiftBoth, shift, hindex, List.map_reverse]
  | none =>
    refine moved_bind (Mode.close_shift hl) fun ended _ => ?_
    refine moved_bind (begin_shift l.index c) fun p _ => ?_
    simp [moved, shiftBoth, shift, hindex, List.map_reverse]

theorem feed_eq_bind (l : Lexer) (c : Char) (cs : List Char) :
    l.feed (c :: cs) = (do (← l.step c).feed cs) := by
  rw [feed, List.foldlM_cons]
  rfl

/-- **A text.**  The machine does the same wherever the text begins. -/
theorem feed_shift (before : List Token) {l : Lexer} (hl : l.Sound) (cs : List Char) :
    (l.shift k before).feed cs = moved k (shift k before) (l.feed cs) := by
  induction cs generalizing l with
  | nil => rfl
  | cons c cs ih =>
    rw [feed_eq_bind, feed_eq_bind]
    refine moved_bind (step_shift before hl c) fun l' hstep => ?_
    refine ih (sound_of_index ?_)
    rw [index_of_step hstep]
    exact Nat.succ_ne_zero _

theorem index_of_feed {l l' : Lexer} {cs : List Char} (h : l.feed cs = .ok l') :
    l'.index = l.index + cs.length := by
  induction cs generalizing l with
  | nil =>
    cases h
    rfl
  | cons c cs ih =>
    rw [feed_eq_bind] at h
    obtain ⟨l₁, hstep, hrest⟩ := exists_of_bind h
    rw [ih hrest, index_of_step hstep, List.length_cons]
    omega

theorem index_of_start_feed {l : Lexer} {cs : List Char} (h : start.feed cs = .ok l) :
    l.index = cs.length := by
  rw [index_of_feed h]
  exact Nat.zero_add _

/-- The tokens of a text, from the machine that has read it. -/
theorem scan_of_close {l : Lexer} {cs : List Char} {ended : List Token}
    (hfeed : start.feed cs = .ok l) (hclose : l.mode.close cs.length = .ok ended) :
    scan cs = .ok (l.done.reverse ++ ended) := by
  simp [scan, hfeed, finish, index_of_start_feed hfeed, hclose, bind, Except.bind]

theorem exists_of_feed_concat {l l' : Lexer} {cs : List Char} {c : Char}
    (h : l.feed (cs ++ [c]) = .ok l') : ∃ mid, l.feed cs = .ok mid ∧ mid.step c = .ok l' := by
  rw [feed, List.foldlM_append] at h
  obtain ⟨mid, hfeed, hlast⟩ := exists_of_bind h
  obtain ⟨_, hstep, hend⟩ := exists_of_bind hlast
  cases hend
  exact ⟨mid, hfeed, hstep⟩

theorem sound_of_feed {l : Lexer} {cs : List Char} (h : start.feed cs = .ok l) : l.Sound := by
  cases cs with
  | nil =>
    cases h
    exact fun _ => rfl
  | cons c cs =>
    refine sound_of_index ?_
    rw [index_of_feed h, List.length_cons]
    omega

theorem finish_shift (before : List Token) {l : Lexer} (hl : l.Sound) :
    (l.shift k before).finish =
      moved k (fun ts => before.reverse ++ ts.map (Token.shift k)) l.finish := by
  refine moved_bind (Mode.close_shift hl) fun ended _ => ?_
  simp [moved, shift, List.map_reverse]

/-- The tokens of a text that begins after `k` characters, if these are the tokens `before`, the
last one first, and leave nothing open. -/
theorem scan_shift (before : List Token) (cs : List Char) :
    (do (← feed ⟨k, .gap, before⟩ cs).finish) =
      moved k (fun ts => before.reverse ++ ts.map (Token.shift k)) (scan cs) := by
  have hstart : (⟨k, .gap, before⟩ : Lexer) = start.shift k before := by
    simp [start, shift, Mode.shift]
  rw [hstart]
  refine moved_bind (feed_shift before (fun _ => rfl) cs) fun l hl => ?_
  exact finish_shift before (sound_of_feed hl)

/-! ## Line ends -/

/-- A line end continues nothing that a text may end with. -/
theorem Mode.extend?_newline {mode : Mode} {i : Nat} {ended : List Token}
    (h : mode.close i = .ok ended) : mode.extend? i '\n' = none := by
  cases mode with
  | gap | word _ _ | digits _ _ | point _ _ | fraction _ _ | slash _ | lineComment => rfl
  | quoted _ _ _ | escaped _ _ _ | blockComment _ _ _ => cases h
  | lead start first => cases first <;> rfl

/-- A line end closes whatever a text may end with. -/
theorem step_newline {l : Lexer} {ts : List Token} (h : l.finish = .ok ts) :
    l.step '\n' = .ok ⟨l.index + 1, .gap, ts.reverse⟩ := by
  obtain ⟨ended, hclose, h⟩ := exists_of_bind h
  cases h
  have hbegin : begin l.index '\n' = .ok ([], .gap) := rfl
  simp only [step, Mode.extend?_newline hclose, hclose, hbegin]
  simp [bind, Except.bind]

/-- If a character closes what a text ends with and begins nothing, the tokens of a text behind it
are its own tokens, shifted. -/
theorem scan_separated {a : List Char} {ts : List Token} {l : Lexer} {c : Char}
    (hfeed : start.feed a = .ok l) (hstep : l.step c = .ok ⟨l.index + 1, .gap, ts.reverse⟩)
    (b : List Char) :
    scan (a ++ c :: b) =
      moved (a.length + 1) (fun us => ts ++ us.map (Token.shift (a.length + 1))) (scan b) := by
  have hindex := index_of_start_feed hfeed
  have hrest : start.feed (a ++ c :: b) = feed ⟨a.length + 1, .gap, ts.reverse⟩ b := by
    rw [feed_append hfeed, feed_cons hstep, hindex]
  have hscan := scan_shift (k := a.length + 1) ts.reverse b
  rw [List.reverse_reverse] at hscan
  conv => lhs; unfold scan
  rw [hrest]
  exact hscan

/-- **Lexing is compositional at line ends.**  If the first text has tokens, the tokens of both are
those of the first, and then those of the second behind it.  If the second has none, the error is
the same, and charged to the same character. -/
theorem scan_newline {a : List Char} {ts : List Token} (h : scan a = .ok ts) (b : List Char) :
    scan (a ++ '\n' :: b) =
      moved (a.length + 1) (fun us => ts ++ us.map (Token.shift (a.length + 1))) (scan b) := by
  obtain ⟨l, hfeed, hfinish⟩ := exists_of_bind h
  exact scan_separated hfeed (step_newline hfinish) b

end Lexer

/-- The end mark of a text is the last of its tokens. -/
theorem scan_of_tokenize {source : String} {tokens : List Token}
    (h : tokenize source = .ok tokens) : Lexer.scan source.toList = .ok tokens.dropLast := by
  obtain ⟨ts, hscan, heq⟩ := Lexer.exists_of_bind h
  cases heq
  rw [List.dropLast_concat, hscan]

theorem Token.shift_endAt (k n : Nat) : (Token.endAt n).shift k = .endAt (n + k) := rfl

/-- **Source texts can be put together at a line end.**  The first text loses its end mark, and the
second is read as it is alone, only that its tokens, its end mark and its error stand further
behind. -/
theorem tokenize_newline {a : String} {tokens : List Token} (h : tokenize a = .ok tokens)
    (b : String) :
    tokenize (a ++ "\n" ++ b) = Lexer.moved (a.length + 1)
      (fun us => tokens.dropLast ++ us.map (Token.shift (a.length + 1))) (tokenize b) := by
  have hchars : (a ++ "\n" ++ b).toList = a.toList ++ '\n' :: b.toList := by
    simp
  have hlength : (a ++ "\n" ++ b).length = b.length + (a.length + 1) := by
    simp only [String.length_append]
    exact Nat.add_comm _ _
  have hscan := Lexer.scan_newline (scan_of_tokenize h) b.toList
  rw [String.length_toList] at hscan
  unfold tokenize
  rw [hchars, hscan, hlength, ← Token.shift_endAt]
  cases Lexer.scan b.toList with
  | error e => rfl
  | ok us => simp [Lexer.moved, bind, Except.bind]

/-- A numeral before a point, a slash and a comment end with their lines, and the quote behind them
is charged with its own place. -/
theorem tokenize_newline_open_quote :
    tokenize "1./ // a" = .ok [⟨.number "1", ⟨0, 1⟩⟩, ⟨.symbol .dot, ⟨1, 2⟩⟩,
        ⟨.symbol .slash, ⟨2, 3⟩⟩, .endAt 8] ∧
      tokenize ("1./ // a" ++ "\n" ++ "5 'b") = .error ⟨.unterminatedText, 11⟩ ∧
      tokenize ("1./ // a" ++ "\n" ++ "/5") = .ok [⟨.number "1", ⟨0, 1⟩⟩, ⟨.symbol .dot, ⟨1, 2⟩⟩,
        ⟨.symbol .slash, ⟨2, 3⟩⟩, ⟨.symbol .slash, ⟨9, 10⟩⟩, ⟨.number "5", ⟨10, 11⟩⟩,
        .endAt 11] := by
  have hfirst : tokenize "1./ // a" = .ok [⟨.number "1", ⟨0, 1⟩⟩, ⟨.symbol .dot, ⟨1, 2⟩⟩,
      ⟨.symbol .slash, ⟨2, 3⟩⟩, .endAt 8] := rfl
  exact ⟨hfirst, tokenize_newline hfirst "5 'b", tokenize_newline hfirst "/5"⟩

namespace Lexer

/-! ## Tokens are no end marks -/

/-- No token is an end mark. -/
def Unmarked (ts : List Token) : Prop := ∀ t ∈ ts, t.lexeme ≠ .endOfInput

theorem unmarked_nil : Unmarked [] := by simp [Unmarked]

theorem Unmarked.append {ts us : List Token} (hts : Unmarked ts) (hus : Unmarked us) :
    Unmarked (ts ++ us) := by
  intro t ht
  rcases List.mem_append.mp ht with ht | ht
  · exact hts t ht
  · exact hus t ht

theorem Unmarked.reverse {ts : List Token} (h : Unmarked ts) : Unmarked ts.reverse :=
  fun t ht => h t (List.mem_reverse.mp ht)

theorem ofWord_ne_endOfInput (word : String) : Lexeme.ofWord word ≠ .endOfInput := by
  unfold Lexeme.ofWord
  split <;> simp

theorem unmarked_of_extend? {mode mode' : Mode} {i : Nat} {c : Char} {ts : List Token}
    (h : mode.extend? i c = some (ts, mode')) : Unmarked ts := by
  unfold Mode.extend? at h
  grind [Unmarked]

theorem unmarked_of_close {mode : Mode} {i : Nat} {ts : List Token}
    (h : mode.close i = .ok ts) : Unmarked ts := by
  unfold Mode.close at h
  grind [Unmarked, ofWord_ne_endOfInput]

theorem unmarked_of_begin {mode : Mode} {i : Nat} {c : Char} {ts : List Token}
    (h : begin i c = .ok (ts, mode)) : Unmarked ts := by
  unfold begin at h
  grind [Unmarked]

theorem unmarked_of_step {l l' : Lexer} {c : Char} (h : l.step c = .ok l')
    (hl : Unmarked l.done) : Unmarked l'.done := by
  rcases step_cases h with ⟨ts, _, hextend, rfl⟩ | ⟨ended, ts, _, -, hclose, hbegin, rfl⟩
  · exact (unmarked_of_extend? hextend).reverse.append hl
  · exact (unmarked_of_begin hbegin).reverse.append ((unmarked_of_close hclose).reverse.append hl)

theorem unmarked_of_feed {l l' : Lexer} {cs : List Char} (h : l.feed cs = .ok l')
    (hl : Unmarked l.done) : Unmarked l'.done := by
  induction cs generalizing l with
  | nil =>
    cases h
    exact hl
  | cons c cs ih =>
    rw [feed_eq_bind] at h
    obtain ⟨l₁, hstep, hrest⟩ := exists_of_bind h
    exact ih hrest (unmarked_of_step hstep hl)

/-- **The tokens of a text are no end marks.** -/
theorem unmarked_of_scan {cs : List Char} {ts : List Token} (h : scan cs = .ok ts) :
    Unmarked ts := by
  obtain ⟨l, hfeed, hfinish⟩ := exists_of_bind h
  obtain ⟨ended, hclose, heq⟩ := exists_of_bind hfinish
  cases heq
  exact (unmarked_of_feed hfeed unmarked_nil).reverse.append (unmarked_of_close hclose)

end Lexer

end Script
