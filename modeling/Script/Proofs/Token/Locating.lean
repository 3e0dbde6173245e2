import Mathlib.Data.List.Induction
import Script.Proofs.Token.Lossless

/-!
# Where a text cannot be read

A text without tokens is charged to one of its characters.  This character is where something begins
that cannot be completed: a quoted text or a block comment that the text does not close, or nothing
at all.  So the text falls into two parts.  What stands before the character is a text of its own,
with the tokens that were found before the failure, and what begins with the character fails in the
same way, at its first character.

The machine may notice the failure much later, at the end of the text in the case of a quote.  What
ties the two places together is `Mode.pending?`, the error that the machine will report if what it
has begun is never completed: it is fixed by the character that begins, and it is kept until the
machine begins something else.

## Main definitions

* `Lexer.Mode.pending?`: the error that is due if what was begun is never completed.
* `Lexer.Stops`: the machine that has read as much of a text as can be read.
* `Lexer.found`: the tokens that a machine has found.
* `Lexer.Blames`: what a text begins with that is charged to its first character.

## Main results

* `Lexer.pending_or_le`: an error is due, or is charged to a character that is still to come.
* `Lexer.Stops.cut`: the two parts of a text that cannot be read.
* `Lexer.blames_of_scan`: why a text is charged to its first character.
* `tokenize_error_located`: the same of source texts.
-/

namespace Script

namespace Lexer

/-! ## Reading on -/

/-- The tokens of a text of which the machine has read the beginning, and of which `cs` is the
rest. -/
def readOn (l : Lexer) (cs : List Char) : Except LexError (List Token) := do
  (← l.feed cs).finish

theorem readOn_append {l l' : Lexer} {as : List Char} (h : l.feed as = .ok l') (bs : List Char) :
    l.readOn (as ++ bs) = l'.readOn bs := by
  rw [readOn, feed_append h, readOn]

theorem readOn_cons {l l' : Lexer} {c : Char} (h : l.step c = .ok l') (cs : List Char) :
    l.readOn (c :: cs) = l'.readOn cs := by
  rw [readOn, feed_cons h, readOn]

theorem readOn_of_error {l : Lexer} {c : Char} {e : LexError} (h : l.step c = .error e)
    (cs : List Char) : l.readOn (c :: cs) = .error e := by
  rw [readOn, feed_eq_bind, h]
  rfl

/-- An error of reading on comes from the next character, or from the rest after it. -/
theorem error_of_readOn_cons {l : Lexer} {c : Char} {cs : List Char} {e : LexError}
    (h : l.readOn (c :: cs) = .error e) :
    l.step c = .error e ∨ ∃ l', l.step c = .ok l' ∧ l'.readOn cs = .error e := by
  cases hstep : l.step c with
  | error e' =>
    rw [readOn_of_error hstep] at h
    cases h
    exact .inl rfl
  | ok l' => exact .inr ⟨l', rfl, (readOn_cons hstep cs).symm.trans h⟩

/-- The end of a text stops the machine only if what was begun cannot end there. -/
theorem close_of_finish {l : Lexer} {e : LexError} (h : l.finish = .error e) :
    l.mode.close l.index = .error e := by
  unfold finish at h
  cases hclose : l.mode.close l.index with
  | error e' =>
    rw [hclose] at h
    cases h
    rfl
  | ok ended =>
    rw [hclose] at h
    cases h

/-- **What stops the machine at a character**: what was begun cannot end before it, or it begins
nothing. -/
theorem step_error_cases {l : Lexer} {c : Char} {e : LexError} (h : l.step c = .error e) :
    l.mode.close l.index = .error e ∨
      ∃ ended, l.mode.close l.index = .ok ended ∧ begin l.index c = .error e := by
  unfold step at h
  split at h
  · cases h
  · cases hclose : l.mode.close l.index with
    | error e' =>
      rw [hclose] at h
      cases h
      exact .inl rfl
    | ok ended =>
      refine .inr ⟨ended, rfl, ?_⟩
      cases hbegin : begin l.index c with
      | error e' =>
        rw [hclose, hbegin] at h
        cases h
        rfl
      | ok p =>
        rw [hclose, hbegin] at h
        cases h

/-! ## What is due -/

/-- The error that is due if what was begun is never completed.  A slash may still turn out to begin
a comment. -/
def Mode.pending? : Mode → Option LexError
  | gap | word _ _ | digits _ _ | point _ _ | fraction _ _ | lineComment => none
  | quoted start _ _ | escaped start _ _ => some ⟨.unterminatedText, start⟩
  | slash start | blockComment start _ _ => some ⟨.unterminatedComment, start⟩
  | lead start first =>
    match first.alone? with
    | some _ => none
    | none => some ⟨.unexpectedCharacter first.char, start⟩

section Pending

variable {mode mode' : Mode} {i : Nat} {c : Char} {ts : List Token} {e : LexError}

theorem pending?_stepComment (start depth : Nat) (hinge : Hinge) (c : Char) :
    (stepComment start depth hinge c).pending? = none ∨
      (stepComment start depth hinge c).pending? = some ⟨.unterminatedComment, start⟩ := by
  unfold stepComment
  split
  · exact .inr rfl
  · split
    · exact .inl rfl
    · exact .inr rfl
  · exact .inr rfl
  · exact .inr rfl
  · exact .inr rfl

/-- An error that is due was due before, and no token is finished as long as it is. -/
theorem Mode.pending?_of_extend? (h : mode.extend? i c = some (ts, mode'))
    (he : mode'.pending? = some e) : mode.pending? = some e ∧ ts = [] := by
  unfold Mode.extend? at h
  grind [Mode.pending?, pending?_stepComment]

theorem Mode.pending?_of_close (h : mode.close i = .error e) : mode.pending? = some e := by
  cases mode with
  | gap | word | digits | point | fraction | slash | lineComment => cases h
  | quoted | escaped | blockComment =>
    cases h
    rfl
  | lead start first =>
    cases first
    case ampersand | bar =>
      cases h
      rfl
    all_goals cases h

/-- An error becomes due with the character that it is charged to. -/
theorem pending?_of_begin (h : begin i c = .ok (ts, mode)) (he : mode.pending? = some e) :
    e.index = i ∧ ts = [] := by
  unfold begin at h
  grind [Mode.pending?]

theorem begin_error (h : begin i c = .error e) : e = ⟨.unexpectedCharacter c, i⟩ := by
  unfold begin at h
  grind

/-- A single `&` or `|` cannot end anywhere. -/
theorem Mode.close_of_pending? {d : Char} {j : Nat}
    (h : mode.pending? = some ⟨.unexpectedCharacter d, j⟩) :
    mode.close i = .error ⟨.unexpectedCharacter d, j⟩ := by
  unfold Mode.pending? at h
  grind [Mode.close]

end Pending

/-- **An error is due already, or it is charged to a character that is still to come.** -/
theorem pending_or_le {l : Lexer} {cs : List Char} {e : LexError} (h : l.readOn cs = .error e) :
    l.mode.pending? = some e ∨ l.index ≤ e.index := by
  induction cs generalizing l with
  | nil => exact .inl (Mode.pending?_of_close (close_of_finish h))
  | cons c cs ih =>
    rcases error_of_readOn_cons h with hstep | ⟨l', hstep, hrest⟩
    · rcases step_error_cases hstep with hclose | ⟨ended, -, hbegin⟩
      · exact .inl (Mode.pending?_of_close hclose)
      · rw [begin_error hbegin]
        exact .inr (Nat.le_refl _)
    · rcases ih hrest with hdue | hlater
      · rcases step_cases hstep with ⟨ts, mode, hextend, rfl⟩ | ⟨ended, ts, mode, -, -, hbegin, rfl⟩
        · exact .inl (Mode.pending?_of_extend? hextend hdue).1
        · exact .inr (Nat.le_of_eq (pending?_of_begin hbegin hdue).1.symm)
      · rw [index_of_step hstep] at hlater
        exact .inr (by omega)

/-! ## The two parts of a text -/

/-- Where nothing has been begun, the first character begins something. -/
theorem step_of_begin {i : Nat} {mode : Mode} {c : Char} {ts : List Token}
    (h : begin i c = .ok (ts, mode)) (done : List Token) :
    step ⟨i, .gap, done⟩ c = .ok ⟨i + 1, mode, ts.reverse ++ done⟩ := by
  simp [step, Mode.extend?, Mode.close, h, bind, Except.bind]

/-- A character that begins nothing stops the machine. -/
theorem step_of_begin_error {i : Nat} {c : Char} {e : LexError} (h : begin i c = .error e)
    (done : List Token) : step ⟨i, .gap, done⟩ c = .error e := by
  simp [step, Mode.extend?, Mode.close, h, bind, Except.bind]

/-- **Where an error became due.**  The text before that character has the tokens that are finished,
and the machine has read the rest as if it had begun there. -/
theorem exists_of_pending? {l : Lexer} {text : List Char} {e : LexError}
    (hfeed : start.feed text = .ok l) (he : l.mode.pending? = some e) :
    ∃ before piece, text = before ++ piece ∧ before.length = e.index ∧
      scan before = .ok l.done.reverse ∧ feed ⟨e.index, .gap, l.done⟩ piece = .ok l := by
  -- the last character either continues what is open, or it is the one that began it
  induction text using List.reverseRecOn generalizing l with
  | nil =>
    cases hfeed
    cases he
  | append_singleton cs c ih =>
    obtain ⟨mid, hmid, hstep⟩ := exists_of_feed_concat hfeed
    rcases step_cases hstep with
      ⟨ts, mode, hextend, rfl⟩ | ⟨ended, ts, mode, -, hclose, hbegin, rfl⟩
    · obtain ⟨hdue, rfl⟩ := Mode.pending?_of_extend? hextend he
      obtain ⟨before, piece, rfl, hindex, hscan, hpiece⟩ := ih hmid hdue
      refine ⟨before, piece ++ [c], by simp, hindex, hscan, ?_⟩
      rw [List.reverse_nil, List.nil_append, feed_append hpiece, feed_cons hstep]
      rfl
    · obtain ⟨hindex, rfl⟩ := pending?_of_begin hbegin he
      rw [index_of_start_feed hmid] at hclose
      refine ⟨cs, [c], rfl, ?_, ?_, ?_⟩
      · rw [hindex, index_of_start_feed hmid]
      · rw [scan_of_close hmid hclose]
        simp
      · rw [hindex, feed_cons (step_of_begin hbegin _)]
        rfl

/-- The machine has read as much of a text as can be read: the next character stops it, or the end
of the text does. -/
inductive Stops (cs : List Char) (l : Lexer) (e : LexError) : Prop where
  | atCharacter {read rest : List Char} {c : Char} (hcs : cs = read ++ c :: rest)
      (hfeed : start.feed read = .ok l) (hstep : l.step c = .error e)
  | atEnd (hfeed : start.feed cs = .ok l) (hfinish : l.finish = .error e)

theorem exists_stops_of_readOn {l : Lexer} {read cs : List Char} {e : LexError}
    (hfeed : start.feed read = .ok l) (h : l.readOn cs = .error e) :
    ∃ last, Stops (read ++ cs) last e := by
  induction cs generalizing l read with
  | nil =>
    rw [List.append_nil]
    exact ⟨l, .atEnd hfeed h⟩
  | cons c cs ih =>
    rcases error_of_readOn_cons h with hstep | ⟨l', hstep, hrest⟩
    · exact ⟨l, .atCharacter rfl hfeed hstep⟩
    · have hnext : start.feed (read ++ [c]) = .ok l' := by
        rw [feed_append hfeed, feed_cons hstep]
        rfl
      obtain ⟨last, hlast⟩ := ih hnext hrest
      rw [List.append_assoc] at hlast
      exact ⟨last, hlast⟩

/-- A text that cannot be read stops the machine. -/
theorem exists_stops {cs : List Char} {e : LexError} (h : scan cs = .error e) :
    ∃ l, Stops cs l e := by
  have hstart : start.feed [] = .ok start := rfl
  exact exists_stops_of_readOn hstart h

/-- The tokens that a machine has found: those that are finished, and what was begun if it can end
here. -/
def found (l : Lexer) : List Token :=
  l.done.reverse ++ (l.mode.close l.index).toOption.getD []

theorem found_of_error {l : Lexer} {e : LexError} (h : l.mode.close l.index = .error e) :
    l.found = l.done.reverse := by
  simp [found, h, Except.toOption]

theorem found_of_ok {l : Lexer} {ended : List Token} (h : l.mode.close l.index = .ok ended) :
    l.found = l.done.reverse ++ ended := by
  simp [found, h, Except.toOption]

/-- A text is cut in front of the character that an error is charged to. -/
structure Cut (cs before after : List Char) (tokens : List Token) (e : LexError) : Prop where
  append_eq : cs = before ++ after
  length_before : before.length = e.index
  scan_before : scan before = .ok tokens
  readOn_after : readOn ⟨e.index, .gap, tokens.reverse⟩ after = .error e

/-- An error that is due and comes true later on. -/
theorem cut_of_pending? {l : Lexer} {read rest : List Char} {e : LexError}
    (hfeed : start.feed read = .ok l) (hclose : l.mode.close l.index = .error e)
    (hrest : l.readOn rest = .error e) :
    ∃ before after, Cut (read ++ rest) before after l.found e := by
  obtain ⟨before, piece, rfl, hindex, hscan, hpiece⟩ :=
    exists_of_pending? hfeed (Mode.pending?_of_close hclose)
  rw [found_of_error hclose]
  refine ⟨before, piece ++ rest, List.append_assoc before piece rest, hindex, hscan, ?_⟩
  rw [List.reverse_reverse, readOn_append hpiece]
  exact hrest

/-- **The two parts of a text that cannot be read.** -/
theorem Stops.cut {cs : List Char} {l : Lexer} {e : LexError} (h : Stops cs l e) :
    ∃ before after, Cut cs before after l.found e := by
  cases h with
  | @atCharacter read rest c hcs hfeed hstep =>
    subst hcs
    rcases step_error_cases hstep with hclose | ⟨ended, hclose, hbegin⟩
    · exact cut_of_pending? hfeed hclose (readOn_of_error hstep rest)
    · -- the character begins nothing, and all before it is complete
      have hindex : e.index = l.index := by rw [begin_error hbegin]
      rw [← hindex] at hbegin
      refine ⟨read, c :: rest, rfl, ?_, ?_, readOn_of_error (step_of_begin_error hbegin _) rest⟩
      · rw [hindex, index_of_start_feed hfeed]
      · rw [found_of_ok hclose]
        rw [index_of_start_feed hfeed] at hclose
        exact scan_of_close hfeed hclose
  | atEnd hfeed hfinish =>
    have hcut : ∃ before after, Cut (cs ++ []) before after l.found e :=
      cut_of_pending? hfeed (close_of_finish hfinish) hfinish
    rwa [List.append_nil] at hcut

/-- What begins with the character that an error is charged to fails there, too. -/
theorem Cut.scan_after {cs before after : List Char} {tokens : List Token} {e : LexError}
    (h : Cut cs before after tokens e) : scan after = .error ⟨e.cause, 0⟩ := by
  have hmoved : .error e = moved e.index
      (fun ts => tokens.reverse.reverse ++ ts.map (Token.shift e.index)) (scan after) := by
    rw [← scan_shift]
    exact h.readOn_after.symm
  cases hscan : scan after with
  | ok ts =>
    rw [hscan] at hmoved
    cases hmoved
  | error e' =>
    rw [hscan] at hmoved
    have hshift : e = e'.shift e.index := Except.error.inj hmoved
    have hindex : e.index = e'.index + e.index := congrArg LexError.index hshift
    have hcause : e.cause = (e'.shift e.index).cause := congrArg LexError.cause hshift
    have hzero : e'.index = 0 := by omega
    rw [hcause, ← hzero]
    rfl

theorem Cut.after_ne_nil {cs before after : List Char} {tokens : List Token} {e : LexError}
    (h : Cut cs before after tokens e) : after ≠ [] := by
  rintro rfl
  cases h.scan_after

/-! ## What cannot be completed -/

/-- Between the quotes, the machine reads what the characters stand for. -/
theorem feed_of_unquote {quote : Char} {interior xs : List Char}
    (h : unquote quote interior = some xs) (start i : Nat) (read : List Char)
    (done : List Token) :
    feed ⟨i, .quoted start quote read, done⟩ interior =
      .ok ⟨i + interior.length, .quoted start quote (xs.reverse ++ read), done⟩ := by
  fun_induction unquote quote interior generalizing i read xs with
  | case1 =>
    cases h
    rfl
  | case2 cs => cases h
  | case3 hquote => cases h
  | case4 d cs hquote ih =>
    obtain ⟨ys, hys, rfl⟩ := Option.map_eq_some_iff.mp h
    have hback : step ⟨i, .quoted start quote read, done⟩ '\\' =
        .ok ⟨i + 1, .escaped start quote read, done⟩ := by
      simp [step, Mode.extend?, hquote]
    have hnext : step ⟨i + 1, .escaped start quote read, done⟩ d =
        .ok ⟨i + 1 + 1, .quoted start quote (unescape d :: read), done⟩ := by
      simp [step, Mode.extend?]
    rw [feed_cons hback, feed_cons hnext, ih hys]
    simp [Nat.add_comm, Nat.add_left_comm]
  | case5 c cs hquote hback ih =>
    obtain ⟨ys, hys, rfl⟩ := Option.map_eq_some_iff.mp h
    have hnext : step ⟨i, .quoted start quote read, done⟩ c =
        .ok ⟨i + 1, .quoted start quote (c :: read), done⟩ := by
      simp [step, Mode.extend?, hquote, hback]
    rw [feed_cons hnext, ih hys]
    simp [Nat.add_comm, Nat.add_left_comm]

/-- A quoted text is read back, whichever of its characters are escaped. -/
theorem readsBack_quoted {quote : Char} {interior : List Char} {content : String}
    (hquote : isQuote quote = true) (h : unquote quote interior = some content.toList) :
    ReadsBack (quote :: (interior ++ [quote])) (.quoted content) := by
  refine readsBack_between hquote fun start i done => ?_
  rw [feed_of_unquote h, List.append_nil]

theorem readsBack_of_ofText? {s : String} {lexeme : Lexeme} (h : Lexeme.ofText? s = some lexeme) :
    ReadsBack s.toList lexeme := by
  unfold Lexeme.ofText? at h
  split at h
  · next hword =>
    cases h
    cases hs : s.toList with
    | nil =>
      rw [hs] at hword
      cases hword
    | cons c cs =>
      rw [hs, isWord, Bool.and_eq_true] at hword
      rw [← hs]
      exact readsBack_word hs hword.1 hword.2
  · split at h
    · next hread =>
      cases h
      exact readsBack_number hread
    · obtain ⟨mark, hmark, rfl⟩ := Option.map_eq_some_iff.mp h
      have htext : mark.text = s := by
        simpa using List.find?_some hmark
      rw [← htext]
      exact readsBack_symbol mark

/-- **What is spelled is read back.** -/
theorem readsBack_of_spells {word : List Char} {lexeme : Lexeme} (h : Spells word lexeme) :
    ReadsBack word lexeme := by
  cases lexeme with
  | quoted content =>
    obtain ⟨quote, interior, hquote, rfl, hinterior⟩ := h
    exact readsBack_quoted hquote hinterior
  | identifier | number | keyword | symbol | endOfInput =>
    obtain ⟨rfl, htext⟩ := h
    exact readsBack_of_ofText? htext

/-- Half of a mark goes for nothing before a character that does not complete it. -/
theorem stepComment_of_hinge {hinge : Hinge} {d : Char}
    (hopen : hinge.chars ++ [d] ≠ ['/', '*']) (hclose : hinge.chars ++ [d] ≠ ['*', '/'])
    (start depth : Nat) : stepComment start depth hinge d = stepComment start depth .none d := by
  cases hinge with
  | none => rfl
  | slash =>
    have hd : d ≠ '*' := by
      rintro rfl
      exact hopen rfl
    unfold stepComment
    split <;> simp_all
  | star =>
    have hd : d ≠ '/' := by
      rintro rfl
      exact hclose rfl
    unfold stepComment
    split <;> simp_all

theorem feed_of_hinge {hinge : Hinge} {d : Char} (hopen : hinge.chars ++ [d] ≠ ['/', '*'])
    (hclose : hinge.chars ++ [d] ≠ ['*', '/']) (start depth i : Nat) (ds : List Char)
    (done : List Token) :
    feed ⟨i, .blockComment start depth hinge, done⟩ (d :: ds) =
      feed ⟨i, .blockComment start depth .none, done⟩ (d :: ds) := by
  simp only [feed_eq_bind, step, Mode.extend?, stepComment_of_hinge hopen hclose]

/-- A character may be the first half of a mark. -/
theorem exists_hinge (start depth : Nat) (c : Char) :
    ∃ hinge : Hinge, stepComment start depth .none c = .blockComment start depth hinge ∧
      (hinge.chars = [] ∨ hinge.chars = [c]) := by
  unfold stepComment
  split
  · contradiction
  · contradiction
  · exact ⟨.slash, rfl, .inr rfl⟩
  · exact ⟨.star, rfl, .inr rfl⟩
  · exact ⟨.none, rfl, .inl rfl⟩

/-- **A comment that is balanced is read to its end.** -/
theorem feed_of_balanced {depth : Nat} {body : List Char} (h : Comment depth body) (start i : Nat)
    (done : List Token) :
    feed ⟨i, .blockComment start depth .none, done⟩ body = .ok ⟨i + body.length, .gap, done⟩ := by
  induction h generalizing i with
  | last => rfl
  | @close depth rest _ ih =>
    have hlength : i + ('*' :: '/' :: rest).length = i + 1 + 1 + rest.length := by
      simp only [List.length_cons]
      omega
    rw [hlength]
    exact ih (i + 1 + 1)
  | @nest depth rest _ ih =>
    have hlength : i + ('/' :: '*' :: rest).length = i + 1 + 1 + rest.length := by
      simp only [List.length_cons]
      omega
    rw [hlength]
    exact ih (i + 1 + 1)
  | @other depth c rest hopen hclose hrest ih =>
    obtain ⟨hinge, hstep, hhinge⟩ := exists_hinge start depth c
    have hnext : step ⟨i, .blockComment start depth .none, done⟩ c =
        .ok ⟨i + 1, .blockComment start depth hinge, done⟩ := by
      simp [step, Mode.extend?, hstep]
    obtain ⟨d, ds, rfl⟩ : ∃ d ds, rest = d :: ds := by
      cases hrest <;> exact ⟨_, _, rfl⟩
    -- the character is no half of a mark together with the one behind it
    have hmark : ∀ {a b : Char}, ¬ [a, b] <+: c :: d :: ds → hinge.chars ++ [d] ≠ [a, b] := by
      intro a b hnot heq
      rcases hhinge with hchars | hchars
      · rw [hchars] at heq
        cases heq
      · rw [hchars] at heq
        cases heq
        exact hnot (by simp)
    have hlength : i + (c :: d :: ds).length = i + 1 + (d :: ds).length := by
      simp only [List.length_cons]
      omega
    rw [hlength, feed_cons hnext, feed_of_hinge (hmark hopen) (hmark hclose)]
    exact ih (i + 1)

/-! ## What is to blame -/

/-- What a text begins with if it is charged to its first character: a quote that is not closed by
the same quote unescaped, a block comment that is not balanced, or a character with which no token
begins. -/
def Blames : LexError.Cause → List Char → Prop
  | .unterminatedText, cs => ∃ quote rest, cs = quote :: rest ∧ isQuote quote = true ∧
      ∀ interior after, rest = interior ++ quote :: after → unquote quote interior = none
  | .unterminatedComment, cs => ∃ rest, cs = '/' :: '*' :: rest ∧
      ∀ body, body <+: rest → ¬ Comment 0 body
  | .unexpectedCharacter c, cs => ∃ rest, cs = c :: rest ∧ Text.isBlank c = false ∧
      ∀ word lexeme, Spells word lexeme → ¬ word <+: cs

section Blame

variable {cause : LexError.Cause} {c : Char} {cs rest : List Char}

/-- Past the first character, nothing is charged to it but what is due. -/
theorem readOn_ne_error {l : Lexer} (hindex : l.index ≠ 0)
    (hdue : l.mode.pending? ≠ some ⟨cause, 0⟩) : l.readOn cs ≠ .error ⟨cause, 0⟩ := by
  intro h
  rcases pending_or_le h with hpending | hle
  · exact hdue hpending
  · exact hindex (Nat.le_zero.mp hle)

/-- The first character begins nothing, or what is due. -/
theorem exists_first (h : scan cs = .error ⟨cause, 0⟩) :
    ∃ c rest, cs = c :: rest ∧ (begin 0 c = .error ⟨cause, 0⟩ ∨
      ∃ mode, begin 0 c = .ok ([], mode) ∧ mode.pending? = some ⟨cause, 0⟩ ∧
        readOn ⟨1, mode, []⟩ rest = .error ⟨cause, 0⟩) := by
  cases cs with
  | nil => cases h
  | cons c rest =>
    refine ⟨c, rest, rfl, ?_⟩
    cases hbegin : begin 0 c with
    | error e =>
      have hscan : scan (c :: rest) = .error e :=
        readOn_of_error (step_of_begin_error hbegin []) rest
      rw [hscan] at h
      cases h
      exact .inl rfl
    | ok p =>
      obtain ⟨ts, mode⟩ := p
      have hrest := (readOn_cons (step_of_begin hbegin []) rest).symm.trans h
      rcases pending_or_le hrest with hdue | hle
      · obtain ⟨-, rfl⟩ := pending?_of_begin hbegin hdue
        exact .inr ⟨mode, rfl, hdue, hrest⟩
      · cases hle

theorem blames_text (h : scan cs = .error ⟨.unterminatedText, 0⟩) :
    Blames .unterminatedText cs := by
  obtain ⟨c, rest, rfl, hbegin | ⟨mode, hbegin, hdue, hrest⟩⟩ := exists_first h
  · cases begin_error hbegin
  · obtain ⟨hquote, rfl⟩ : isQuote c = true ∧ mode = .quoted 0 c [] := by
      unfold begin at hbegin
      grind [Mode.pending?]
    refine ⟨c, rest, rfl, hquote, ?_⟩
    rintro interior after rfl
    cases hinterior : unquote c interior with
    | none => rfl
    | some xs =>
      -- the quote behind the interior closes the text, and nothing is due any more
      rw [readOn_append (feed_of_unquote hinterior _ _ _ _), readOn_cons step_unquote] at hrest
      exact absurd hrest (readOn_ne_error (by simp) (by simp [Mode.pending?]))

/-- A slash that no star follows begins no comment. -/
theorem readOn_slash_ne_error {d : Char} (hd : d ≠ '*') :
    readOn ⟨1, .slash 0, []⟩ (d :: rest) ≠ .error ⟨.unterminatedComment, 0⟩ := by
  intro h
  rcases error_of_readOn_cons h with hstep | ⟨l, hstep, hrest⟩
  · rcases step_error_cases hstep with hclose | ⟨ended, -, hbegin⟩
    · cases hclose
    · cases begin_error hbegin
  · refine readOn_ne_error ?_ ?_ hrest
    · rw [index_of_step hstep]
      exact Nat.succ_ne_zero _
    · intro hdue
      rcases step_cases hstep with ⟨ts, mode, hextend, rfl⟩ | ⟨ended, ts, mode, -, -, hbegin, rfl⟩
      · simp only [Mode.extend?, if_neg hd] at hextend
        split at hextend <;> cases hextend
        cases hdue
      · cases (pending?_of_begin hbegin hdue).1

theorem blames_comment (h : scan cs = .error ⟨.unterminatedComment, 0⟩) :
    Blames .unterminatedComment cs := by
  obtain ⟨c, rest, rfl, hbegin | ⟨mode, hbegin, hdue, hrest⟩⟩ := exists_first h
  · cases begin_error hbegin
  · obtain ⟨rfl, rfl⟩ : c = '/' ∧ mode = .slash 0 := by
      unfold begin at hbegin
      grind [Mode.pending?]
    cases rest with
    | nil => cases hrest
    | cons d rest =>
      by_cases hd : d = '*'
      · subst hd
        refine ⟨rest, rfl, ?_⟩
        rintro body ⟨after, rfl⟩ hbody
        have hopen : step ⟨1, .slash 0, []⟩ '*' = .ok ⟨2, .blockComment 0 0 .none, []⟩ := rfl
        rw [readOn_cons hopen, readOn_append (feed_of_balanced hbody _ _ _)] at hrest
        exact readOn_ne_error (by simp) (by simp [Mode.pending?]) hrest
      · exact absurd hrest (readOn_slash_ne_error hd)

/-- No token is read from the beginning of a text that is charged to its first character. -/
theorem not_prefix_of_spells {word : List Char} {lexeme : Lexeme}
    (h : scan cs = .error ⟨.unexpectedCharacter c, 0⟩) (hword : Spells word lexeme) :
    ¬ word <+: cs := by
  rintro ⟨after, rfl⟩
  obtain ⟨l, hfeed, hindex, hcompletes⟩ := readsBack_of_spells hword 0 []
  have hrest : l.readOn after = .error ⟨.unexpectedCharacter c, 0⟩ :=
    (readOn_append hfeed after).symm.trans h
  rcases pending_or_le hrest with hdue | hle
  · obtain ⟨ended, hclose, -⟩ := exists_of_bind hcompletes.finish_eq
    rw [Mode.close_of_pending? hdue] at hclose
    cases hclose
  · have hpos := length_pos_of_spells hword
    rw [hindex] at hle
    have hzero : 0 + word.length ≤ 0 := hle
    omega

theorem blames_character (h : scan cs = .error ⟨.unexpectedCharacter c, 0⟩) :
    Blames (.unexpectedCharacter c) cs := by
  obtain ⟨d, rest, rfl, hfirst⟩ := exists_first h
  obtain ⟨rfl, hblank⟩ : c = d ∧ Text.isBlank d = false := by
    unfold begin at hfirst
    grind [Mode.pending?, Lead.char_of_ofChar?]
  exact ⟨rest, rfl, hblank, fun word lexeme hword => not_prefix_of_spells h hword⟩

/-- **Why a text is charged to its first character.** -/
theorem blames_of_scan (h : scan cs = .error ⟨cause, 0⟩) : Blames cause cs := by
  cases cause with
  | unterminatedText => exact blames_text h
  | unterminatedComment => exact blames_comment h
  | unexpectedCharacter c => exact blames_character h

end Blame

end Lexer

/-! ## Source texts -/

theorem scan_of_tokenize_error {source : String} {e : LexError} (h : tokenize source = .error e) :
    Lexer.scan source.toList = .error e := by
  unfold tokenize at h
  cases hscan : Lexer.scan source.toList with
  | error e' =>
    rw [hscan] at h
    cases h
    rfl
  | ok ts =>
    rw [hscan] at h
    cases h

theorem tokenize_ofList (cs : List Char) : tokenize (String.ofList cs) =
    (do .ok ((← Lexer.scan cs) ++ [.endAt cs.length])) := by
  rw [tokenize, String.toList_ofList, String.length_ofList]

/-- An error is charged to the right character of a source text. -/
structure LexError.Located (e : LexError) (source : String) : Prop where
  /-- It is charged to a character of the text. -/
  index_lt : e.index < source.length
  /-- What stands before the character has tokens: those that the machine has found when it
  stops. -/
  before : ∃ l, Lexer.Stops source.toList l e ∧
    tokenize (String.ofList (source.toList.take e.index)) = .ok (l.found ++ [.endAt e.index])
  /-- What begins with the character fails for the same cause, at once. -/
  after : tokenize (String.ofList (source.toList.drop e.index)) = .error ⟨e.cause, 0⟩
  /-- The character begins what the cause says. -/
  blames : Lexer.Blames e.cause (source.toList.drop e.index)

/-- **A source text that cannot be read is charged to the character that is to blame.** -/
theorem tokenize_error_located {source : String} {e : LexError} (h : tokenize source = .error e) :
    e.Located source := by
  obtain ⟨l, hstops⟩ := Lexer.exists_stops (scan_of_tokenize_error h)
  obtain ⟨before, after, hcut⟩ := hstops.cut
  have htake : source.toList.take e.index = before := by
    rw [hcut.append_eq, ← hcut.length_before, List.take_left]
  have hdrop : source.toList.drop e.index = after := by
    rw [hcut.append_eq, ← hcut.length_before, List.drop_left]
  refine ⟨?_, ⟨l, hstops, ?_⟩, ?_, ?_⟩
  · have hpos := List.length_pos_iff.mpr hcut.after_ne_nil
    rw [← String.length_toList, hcut.append_eq, List.length_append, hcut.length_before]
    omega
  · rw [htake, tokenize_ofList, hcut.scan_before, hcut.length_before]
    rfl
  · rw [hdrop, tokenize_ofList, hcut.scan_after]
    rfl
  · rw [hdrop]
    exact Lexer.blames_of_scan hcut.scan_after

/-- Behind a numeral with a point and a complete comment, a quote that only an escaped quote
follows. -/
theorem tokenize_error_located_escaped_quote :
    tokenize "1./**/ 'a\\'" = .error ⟨.unterminatedText, 7⟩ ∧
      LexError.Located ⟨.unterminatedText, 7⟩ "1./**/ 'a\\'" := by
  have herror : tokenize "1./**/ 'a\\'" = .error ⟨.unterminatedText, 7⟩ := rfl
  exact ⟨herror, tokenize_error_located herror⟩

end Script
