import Script.Proofs.Token.Lossless

/-!
# Cutting a text at tokens

A text can be cut where a token ends, and where one begins: the parts have the tokens that they have
in the whole text.  Only the point after digits needs some care, since the digits wait for the
character after the point.

The tokens that are still to come are described by a relation, which follows the machine character
by character.  Each of them was begun by what has been read last, or stands further on.

## Main definitions

* `Lexer.Yields`: the tokens that the rest of a text makes.
* `Lexer.InOrder`: tokens that have characters, and follow each other.

## Main results

* `Lexer.Yields.comes`: where a token that is still to come can begin and end.
* `Lexer.cut_at_start`, `Lexer.cut_at_stop`: cutting a text at a token.
* `Lexer.scan_slice`: the tokens of a stretch from one token to another.
-/

namespace Script.Lexer

/-! ## The tokens that are still to come -/

/-- The characters make the tokens, if the first of them stands at index `i` and is read in the
given mode. -/
inductive Yields : Nat → Mode → List Char → List Token → Prop where
  | finish {i : Nat} {mode : Mode} {ts : List Token} (h : mode.close i = .ok ts) :
      Yields i mode [] ts
  | extend {i : Nat} {mode mode' : Mode} {c : Char} {cs : List Char} {ts us : List Token}
      (h : mode.extend? i c = some (ts, mode')) (hrest : Yields (i + 1) mode' cs us) :
      Yields i mode (c :: cs) (ts ++ us)
  | close {i : Nat} {mode mode' : Mode} {c : Char} {cs : List Char} {ended ts us : List Token}
      (hnone : mode.extend? i c = none) (hclose : mode.close i = .ok ended)
      (hbegin : begin i c = .ok (ts, mode')) (hrest : Yields (i + 1) mode' cs us) :
      Yields i mode (c :: cs) (ended ++ (ts ++ us))

theorem yields_of_feed {l : Lexer} {cs : List Char} {ts : List Token}
    (h : (do (← l.feed cs).finish) = .ok ts) :
    ∃ us, Yields l.index l.mode cs us ∧ ts = l.done.reverse ++ us := by
  induction cs generalizing l with
  | nil =>
    obtain ⟨l', hfeed, hfinish⟩ := exists_of_bind h
    cases hfeed
    obtain ⟨ended, hclose, heq⟩ := exists_of_bind hfinish
    cases heq
    exact ⟨ended, .finish hclose, rfl⟩
  | cons c cs ih =>
    obtain ⟨l', hfeed, hfinish⟩ := exists_of_bind h
    rw [feed_eq_bind] at hfeed
    obtain ⟨l₁, hstep, hrest⟩ := exists_of_bind hfeed
    have hmore : (do (← l₁.feed cs).finish) = .ok ts := by
      rw [hrest]
      exact hfinish
    obtain ⟨us, hyields, rfl⟩ := ih hmore
    rcases step_cases hstep with
      ⟨ts, mode, hextend, rfl⟩ | ⟨ended, ts, mode, hnone, hclose, hbegin, rfl⟩
    · exact ⟨ts ++ us, .extend hextend hyields, by simp⟩
    · exact ⟨ended ++ (ts ++ us), .close hnone hclose hbegin hyields, by simp⟩

theorem feed_of_yields {i : Nat} {mode : Mode} {cs : List Char} {us : List Token}
    (h : Yields i mode cs us) (done : List Token) :
    (do (← feed ⟨i, mode, done⟩ cs).finish) = .ok (done.reverse ++ us) := by
  induction h generalizing done with
  | @finish i mode ts hclose =>
    have hfeed : feed ⟨i, mode, done⟩ [] = .ok ⟨i, mode, done⟩ := rfl
    simp [hfeed, finish, hclose, bind, Except.bind]
  | @extend i mode mode' c cs ts us hextend _ ih =>
    have hstep : step ⟨i, mode, done⟩ c = .ok ⟨i + 1, mode', ts.reverse ++ done⟩ := by
      simp [step, hextend]
    rw [feed_cons hstep, ih]
    simp
  | @close i mode mode' c cs ended ts us hnone hclose hbegin _ ih =>
    have hstep : step ⟨i, mode, done⟩ c =
        .ok ⟨i + 1, mode', ts.reverse ++ (ended.reverse ++ done)⟩ := by
      simp [step, hnone, hclose, hbegin, bind, Except.bind]
    rw [feed_cons hstep, ih]
    simp

/-- A text that is read from the beginning, after `k` characters that are none of its own. -/
theorem scan_of_yields {k : Nat} {cs : List Char} {us : List Token} (h : Yields k .gap cs us) :
    ∃ ts, scan cs = .ok ts ∧ us = ts.map (Token.shift k) := by
  have hfeed := feed_of_yields h []
  rw [scan_shift] at hfeed
  cases hscan : scan cs with
  | error e =>
    rw [hscan] at hfeed
    cases hfeed
  | ok ts =>
    rw [hscan] at hfeed
    cases hfeed
    exact ⟨ts, rfl, by simp⟩

/-- The machine between two parts of a text. -/
theorem exists_state {as bs : List Char} {ts : List Token} (h : scan (as ++ bs) = .ok ts) :
    ∃ l us, start.feed as = .ok l ∧ l.index = as.length ∧ Follows as l.done.reverse l.mode ∧
      Yields as.length l.mode bs us ∧ ts = l.done.reverse ++ us := by
  obtain ⟨l', hfeed, hfinish⟩ := exists_of_bind h
  rw [feed, List.foldlM_append] at hfeed
  obtain ⟨l, hfirst, hrest⟩ := exists_of_bind hfeed
  have hmore : (do (← l.feed bs).finish) = .ok ts := by
    rw [feed, hrest]
    exact hfinish
  obtain ⟨us, hyields, hts⟩ := yields_of_feed hmore
  have hindex := index_of_start_feed hfirst
  have hfollows := follows_of_feed Laid.nil.follows rfl hfirst
  exact ⟨l, us, hfirst, hindex, hfollows, hindex ▸ hyields, hts⟩

/-! ## Where tokens come from -/

/-- The index at which the token that a mode may become begins. -/
def Mode.start? : Mode → Option Nat
  | gap | lineComment | blockComment _ _ _ => none
  | word start _ | digits start _ | point start _ | fraction start _ | quoted start _ _
  | escaped start _ _ | slash start | lead start _ => some start

/-- A mode is closed at index `i` with the token: it is what was begun, up to there, or it is one of
the two that a point after digits stands for. -/
def Mode.Closes (i : Nat) (mode : Mode) (t : Token) : Prop :=
  (mode.start? = some t.span.start ∧ i ≤ t.span.stop) ∨
    ∃ start read, mode = .point start read ∧
      (t.span = ⟨start, i - 1⟩ ∨ (t.lexeme = .symbol .dot ∧ t.span.start = i - 1))

section Origins

variable {i : Nat} {mode mode' : Mode} {c : Char} {cs : List Char} {ts us : List Token} {t : Token}

theorem Mode.closes_of_close (h : mode.close i = .ok ts) (ht : t ∈ ts) : mode.Closes i t := by
  cases mode with
  | gap | lineComment =>
    cases h
    cases ht
  | word | digits | fraction | slash =>
    cases h
    rw [List.mem_singleton.mp ht]
    exact .inl ⟨rfl, Nat.le_refl _⟩
  | point start read =>
    cases h
    rcases List.mem_cons.mp ht with rfl | ht
    · exact .inr ⟨start, read, rfl, .inl rfl⟩
    · rw [List.mem_singleton.mp ht]
      exact .inr ⟨start, read, rfl, .inr ⟨rfl, rfl⟩⟩
  | quoted | escaped | blockComment => cases h
  | lead start first =>
    simp only [Mode.close] at h
    split at h
    · cases h
      rw [List.mem_singleton.mp ht]
      exact .inl ⟨rfl, Nat.le_refl _⟩
    · cases h

/-- A token that is completed ends with the character that completes it. -/
theorem Mode.span_of_extend? (h : mode.extend? i c = some (ts, mode')) (ht : t ∈ ts) :
    mode.start? = some t.span.start ∧ t.span.stop = i + 1 := by
  unfold Mode.extend? at h
  grind [Mode.start?]

theorem start?_stepComment (start depth : Nat) (hinge : Hinge) (c : Char) :
    (stepComment start depth hinge c).start? = none := by
  unfold stepComment
  split
  · rfl
  · split <;> rfl
  · rfl
  · rfl
  · rfl

/-- What goes on began where it began, and a point goes on from digits. -/
theorem Mode.start?_of_extend? (h : mode.extend? i c = some (ts, mode')) :
    (mode'.start? = none ∨ mode'.start? = mode.start?) ∧
      ∀ start read, mode' = .point start read → mode = .digits start read ∧ c = '.' ∧ ts = [] := by
  unfold Mode.extend? at h
  grind [Mode.start?, start?_stepComment]

theorem start_of_begin (h : begin i c = .ok (ts, mode)) :
    (∀ t ∈ ts, t.span.start = i) ∧ (mode.start? = none ∨ mode.start? = some i) ∧
      ∀ start read, mode ≠ .point start read := by
  unfold begin at h
  grind [Mode.start?]

/-- **A token that is still to come** stands further on, or it is what has been begun. -/
theorem Yields.comes (h : Yields i mode cs us) (ht : t ∈ us) :
    i ≤ t.span.start ∨ mode.Closes i t := by
  induction h with
  | finish hclose => exact .inr (Mode.closes_of_close hclose ht)
  | @extend i mode mode' c cs ts us hextend _ ih =>
    rcases List.mem_append.mp ht with ht | ht
    · obtain ⟨hstart, hstop⟩ := Mode.span_of_extend? hextend ht
      exact .inr (.inl ⟨hstart, by omega⟩)
    · obtain ⟨hsame, hpoint⟩ := Mode.start?_of_extend? hextend
      rcases ih ht with hlater | ⟨hstart, hstop⟩ | ⟨start, read, rfl, hspan | ⟨-, hspan⟩⟩
      · exact .inl (by omega)
      · rcases hsame with hnone | hsame
        · rw [hnone] at hstart
          cases hstart
        · exact .inr (.inl ⟨hsame ▸ hstart, by omega⟩)
      · obtain ⟨rfl, -, -⟩ := hpoint start read rfl
        exact .inr (.inl ⟨by rw [hspan]; rfl, by rw [hspan]; exact Nat.le_refl _⟩)
      · exact .inl (by omega)
  | @close i mode mode' c cs ended ts us hnone hclose hbegin _ ih =>
    obtain ⟨htokens, hmode, hpoint⟩ := start_of_begin hbegin
    rcases List.mem_append.mp ht with ht | ht
    · exact .inr (Mode.closes_of_close hclose ht)
    rcases List.mem_append.mp ht with ht | ht
    · exact .inl (Nat.le_of_eq (htokens t ht).symm)
    · rcases ih ht with hlater | ⟨hstart, -⟩ | ⟨start, read, hmode', -⟩
      · exact .inl (by omega)
      · rcases hmode with hnone | hsome
        · rw [hnone] at hstart
          cases hstart
        · rw [hsome] at hstart
          cases hstart
          exact .inl (Nat.le_refl _)
      · exact absurd hmode' (hpoint start read)

/-- After a gap, all tokens stand further on. -/
theorem Yields.le_start (h : Yields i .gap cs us) (ht : t ∈ us) : i ≤ t.span.start := by
  rcases h.comes ht with hlater | ⟨hstart, -⟩ | ⟨start, read, hmode, -⟩
  · exact hlater
  · cases hstart
  · cases hmode

/-- What a character begins does not depend on what it has ended. -/
theorem Yields.begin (hrest : Yields (i + 1) mode cs us) (hbegin : begin i c = .ok (ts, mode)) :
    Yields i .gap (c :: cs) (ts ++ us) := by
  have hyields : Yields i .gap (c :: cs) ([] ++ (ts ++ us)) := .close rfl rfl hbegin hrest
  exact hyields

/-- Digits and a point make a numeral that ends in front of the point only if no digit follows. -/
theorem Yields.point {start : Nat} {read : List Char} (h : Yields (i + 1) (.point start read) cs us)
    (ht : t ∈ us) (hsolid : t.span.start < t.span.stop) (hstop : t.span.stop = i) :
    ∃ later, us = ⟨.number (spell read), ⟨start, i⟩⟩ :: later ∧ ∀ u ∈ later, i ≤ u.span.start := by
  cases h with
  | finish hclose =>
    cases hclose
    exact ⟨_, rfl, by simp⟩
  | extend hextend hrest =>
    have hstart := (Mode.start?_of_extend? hextend).2
    rcases List.mem_append.mp ht with hcompleted | hlater
    · have hspan := (Mode.span_of_extend? hextend hcompleted).2
      omega
    rcases hrest.comes hlater with hfurther | ⟨-, hle⟩ | ⟨start, read, hpoint, -⟩
    · omega
    · omega
    · cases (hstart start read hpoint).1
  | close hnone hclose hbegin hrest =>
    cases hclose
    refine ⟨_, rfl, fun u hu => ?_⟩
    rcases List.mem_cons.mp hu with rfl | hu
    · exact Nat.le_refl _
    · exact Nat.le_of_succ_le ((hrest.begin hbegin).le_start hu)

end Origins

/-! ## Cutting -/

/-- Every token has a character, and each ends before the next one begins. -/
structure InOrder (ts : List Token) : Prop where
  solid : ∀ t ∈ ts, t.span.start < t.span.stop
  pairwise : ts.Pairwise fun t u => t.span.stop ≤ u.span.start

theorem inOrder_of_scan {cs : List Char} {ts : List Token} (h : scan cs = .ok ts) :
    InOrder ts ∧ ∀ t ∈ ts, t.span.stop ≤ cs.length := by
  obtain ⟨front, tail, rfl, hlaid, -⟩ := laid_of_scan h
  refine ⟨⟨fun t ht => (hlaid.within t ht).1, hlaid.pairwise⟩, fun t ht => ?_⟩
  rw [List.length_append]
  exact Nat.le_trans (hlaid.within t ht).2 (Nat.le_add_right _ _)

section Cuts

variable {as bs : List Char} {ts : List Token} {t : Token}

/-- Whatever has been begun has a character, and begins with its first. -/
theorem Mode.Holds.solid {mode : Mode} {i : Nat} {piece : List Char} (h : mode.Holds i piece) :
    mode = .gap ∨ (piece ≠ [] ∧ ∀ j, mode.start? = some j → j = i) := by
  have hrun : ∀ {cs : List Char}, Numeral.isRun cs = true → cs ≠ [] := by
    rintro _ hcs rfl
    cases hcs
  cases mode with
  | gap => exact .inl rfl
  | word start read =>
    obtain ⟨rfl, rfl, hword⟩ := h
    refine .inr ⟨fun hnil => ?_, fun j hj => (Option.some.inj hj).symm⟩
    rw [hnil] at hword
    cases hword
  | digits start read =>
    obtain ⟨rfl, rfl, hdigits⟩ := h
    exact .inr ⟨hrun hdigits, fun j hj => (Option.some.inj hj).symm⟩
  | point start read =>
    obtain ⟨rfl, rfl, -⟩ := h
    exact .inr ⟨by simp, fun j hj => (Option.some.inj hj).symm⟩
  | fraction start read =>
    obtain ⟨rfl, rfl, whole, part, heq, -⟩ := h
    exact .inr ⟨by simp [heq], fun j hj => (Option.some.inj hj).symm⟩
  | quoted start quote read =>
    obtain ⟨rfl, -, interior, rfl, -⟩ := h
    exact .inr ⟨by simp, fun j hj => (Option.some.inj hj).symm⟩
  | escaped start quote read =>
    obtain ⟨rfl, -, interior, rfl, -⟩ := h
    exact .inr ⟨by simp, fun j hj => (Option.some.inj hj).symm⟩
  | slash start =>
    obtain ⟨rfl, rfl⟩ := h
    exact .inr ⟨by simp, fun j hj => (Option.some.inj hj).symm⟩
  | lineComment =>
    obtain ⟨body, -, rfl⟩ := h
    exact .inr ⟨by simp, fun j hj => by cases hj⟩
  | blockComment start depth hinge =>
    obtain ⟨body, rfl, -⟩ := h
    exact .inr ⟨by simp, fun j hj => by cases hj⟩
  | lead start first =>
    obtain ⟨rfl, rfl⟩ := h
    exact .inr ⟨by simp, fun j hj => (Option.some.inj hj).symm⟩

/-- What has been begun began earlier. -/
theorem Follows.start?_lt {mode : Mode} {i : Nat} (h : Follows as ts mode)
    (hstart : mode.start? = some i) : i < as.length := by
  obtain ⟨cs, piece, rfl, -, hholds⟩ := h
  rcases hholds.solid with rfl | ⟨hpiece, hbegin⟩
  · cases hstart
  · have hpos := List.length_pos_iff.mpr hpiece
    rw [hbegin i hstart, List.length_append]
    omega

/-- The tokens that are finished stand in what has been read. -/
theorem Follows.stop_le {mode : Mode} (h : Follows as ts mode) (ht : t ∈ ts) :
    t.span.start < t.span.stop ∧ t.span.stop ≤ as.length := by
  obtain ⟨cs, piece, rfl, hlaid, -⟩ := h
  have hwithin := hlaid.within t ht
  rw [List.length_append]
  omega

/-- A token that ends with the last character leaves nothing begun. -/
theorem Follows.mode_eq_gap {mode : Mode} (h : Follows as ts mode) (ht : t ∈ ts)
    (hstop : t.span.stop = as.length) : mode = .gap := by
  obtain ⟨cs, piece, rfl, hlaid, hholds⟩ := h
  have hwithin := (hlaid.within t ht).2
  rw [hstop, List.length_append] at hwithin
  rcases hholds.solid with hgap | ⟨hpiece, -⟩
  · exact hgap
  · have hpos := List.length_pos_iff.mpr hpiece
    omega

/-- **A text can be cut where a token begins**, unless it is a point. -/
theorem cut_at_start (h : scan (as ++ bs) = .ok ts) (ht : t ∈ ts)
    (hstart : t.span.start = as.length) (hdot : t.lexeme ≠ .symbol .dot) :
    ∃ before us, scan as = .ok before ∧ scan bs = .ok us ∧
      ts = before ++ us.map (Token.shift as.length) := by
  obtain ⟨l, us, hfeed, hindex, hfollows, hyields, rfl⟩ := exists_state h
  have hlater : t ∈ us := by
    rcases List.mem_append.mp ht with hdone | hlater
    · have hwithin := hfollows.stop_le hdone
      omega
    · exact hlater
  -- nothing that was begun earlier begins here
  have hearlier : ∀ {mode : Mode}, mode.start? = none ∨ mode.start? = l.mode.start? →
      mode.start? ≠ some t.span.start := by
    intro mode hsame hsome
    rcases hsame with hnone | hsame
    · rw [hnone] at hsome
      cases hsome
    · have hless := hfollows.start?_lt (hsame ▸ hsome)
      omega
  have hnever : ∀ {mode : Mode} {i : Nat}, mode.start? = none ∨ mode.start? = l.mode.start? →
      ¬ mode.Closes i t := by
    rintro mode i hsame (⟨hsome, -⟩ | ⟨start, read, rfl, hspan | ⟨hlexeme, -⟩⟩)
    · exact hearlier hsame hsome
    · exact hearlier hsame (by rw [hspan]; rfl)
    · exact hdot hlexeme
  cases hyields with
  | finish hclose => exact absurd (Mode.closes_of_close hclose hlater) (hnever (.inr rfl))
  | extend hextend hrest =>
    rcases List.mem_append.mp hlater with hdone | hlater
    · exact absurd (Mode.span_of_extend? hextend hdone).1 (hearlier (.inr rfl))
    · rcases hrest.comes hlater with hfurther | hcloses
      · omega
      · exact absurd hcloses (hnever (Mode.start?_of_extend? hextend).1)
  | close hnone hclose hbegin hrest =>
    obtain ⟨us, hscan, heq⟩ := scan_of_yields (hrest.begin hbegin)
    exact ⟨_, us, scan_of_close hfeed hclose, hscan, by rw [heq, List.append_assoc]⟩

/-- **A text can be cut where a token ends.** -/
theorem cut_at_stop (h : scan (as ++ bs) = .ok ts) (ht : t ∈ ts) (hstop : t.span.stop = as.length) :
    ∃ before later, scan as = .ok before ∧ ts = before ++ later ∧
      ∀ u ∈ later, as.length ≤ u.span.start := by
  have hsolid := (inOrder_of_scan h).1.solid t ht
  obtain ⟨l, us, hfeed, hindex, hfollows, hyields, rfl⟩ := exists_state h
  rcases List.mem_append.mp ht with hdone | hlater
  · -- the token is finished, so the rest of the text begins anew
    have hgap := hfollows.mode_eq_gap hdone hstop
    rw [hgap] at hyields
    have hscan := scan_of_close hfeed (by rw [hgap]; rfl)
    rw [List.append_nil] at hscan
    exact ⟨_, us, hscan, rfl, fun u hu => hyields.le_start hu⟩
  cases hyields with
  | finish hclose => exact ⟨_, [], scan_of_close hfeed hclose, by simp, by simp⟩
  | close hnone hclose hbegin hrest =>
    refine ⟨_, _, scan_of_close hfeed hclose, (List.append_assoc _ _ _).symm, fun u hu => ?_⟩
    exact (hrest.begin hbegin).le_start hu
  | @extend _ _ mode' c cs ts us hextend hrest =>
    -- only the digits in front of a point end before the character that is read
    obtain ⟨hsame, hpoint⟩ := Mode.start?_of_extend? hextend
    rcases List.mem_append.mp hlater with hcompleted | hlater
    · have hspan := (Mode.span_of_extend? hextend hcompleted).2
      omega
    rcases hrest.comes hlater with hfurther | ⟨-, hle⟩ | ⟨start, read, rfl, hspan | ⟨-, hspan⟩⟩
    · omega
    · omega
    · obtain ⟨hdigits, rfl, rfl⟩ := hpoint start read rfl
      have hscan := scan_of_close hfeed (by rw [hdigits]; rfl)
      obtain ⟨later, rfl, hfurther⟩ := hrest.point hlater hsolid hstop
      exact ⟨_, later, hscan, by simp, hfurther⟩
    · omega

end Cuts

/-! ## Stretches of tokens -/

namespace InOrder

variable {ts us vs : List Token} {t : Token}

theorem append_left (h : InOrder (ts ++ us)) : InOrder ts :=
  ⟨fun t ht => h.solid t (List.mem_append_left _ ht), (List.pairwise_append.mp h.pairwise).1⟩

theorem append_right (h : InOrder (ts ++ us)) : InOrder us :=
  ⟨fun t ht => h.solid t (List.mem_append_right _ ht), (List.pairwise_append.mp h.pairwise).2.1⟩

theorem tail (h : InOrder (t :: ts)) : InOrder ts :=
  append_right (show InOrder ([t] ++ ts) from h)

theorem stop_le (h : InOrder (ts ++ us)) {u : Token} (ht : t ∈ ts) (hu : u ∈ us) :
    t.span.stop ≤ u.span.start :=
  (List.pairwise_append.mp h.pairwise).2.2 t ht u hu

/-- The first token begins before all others. -/
theorem start_le (h : InOrder ts) {first : Token} (hfirst : ts.head? = some first) (ht : t ∈ ts) :
    first.span.start ≤ t.span.start := by
  obtain ⟨us, rfl⟩ := List.head?_eq_some_iff.mp hfirst
  rcases List.mem_cons.mp ht with rfl | ht
  · exact Nat.le_refl _
  · have hnext := (List.pairwise_cons.mp h.pairwise).1 t ht
    have hsolid := h.solid first (.head _)
    omega

/-- The last token ends after all others. -/
theorem stop_le_last (h : InOrder ts) {last : Token} (hlast : ts.getLast? = some last)
    (ht : t ∈ ts) : t.span.stop ≤ last.span.stop := by
  obtain ⟨us, rfl⟩ := List.getLast?_eq_some_iff.mp hlast
  rcases List.mem_append.mp ht with ht | ht
  · have hnext := h.stop_le ht (List.mem_singleton.mpr rfl)
    have hsolid := h.solid last (by simp)
    omega
  · obtain rfl := List.mem_singleton.mp ht
    exact Nat.le_refl _

end InOrder

/-- A list is split in one way only into members that have a property and members that do not. -/
theorem append_inj_of_forall {α : Type} {p : α → Bool} {xs ys xs' ys' : List α}
    (h : xs ++ ys = xs' ++ ys') (hxs : ∀ x ∈ xs, p x = true) (hys : ∀ y ∈ ys, p y = false)
    (hxs' : ∀ x ∈ xs', p x = true) (hys' : ∀ y ∈ ys', p y = false) : xs = xs' ∧ ys = ys' := by
  have hleft : xs = xs' := by
    have hfilter := congrArg (List.filter p) h
    rw [List.filter_append, List.filter_append, List.filter_eq_self.mpr hxs,
      List.filter_eq_self.mpr hxs', List.filter_eq_nil_iff.mpr (by simpa using hys),
      List.filter_eq_nil_iff.mpr (by simpa using hys')] at hfilter
    simpa using hfilter
  subst hleft
  exact ⟨rfl, List.append_cancel_left h⟩

section Stretches

variable {cs : List Char} {pre mid post : List Token} {first last : Token}

/-- A text up to the end of a token has the tokens up to that one. -/
theorem scan_take (h : scan cs = .ok (pre ++ post)) (hlast : pre.getLast? = some last) :
    scan (cs.take last.span.stop) = .ok pre := by
  obtain ⟨horder, hwithin⟩ := inOrder_of_scan h
  have hmem := List.mem_of_getLast? hlast
  have hstop := hwithin last (List.mem_append_left _ hmem)
  have hlength : (cs.take last.span.stop).length = last.span.stop := by
    rw [List.length_take]
    omega
  rw [← List.take_append_drop last.span.stop cs] at h
  obtain ⟨before, later, hbefore, heq, hlater⟩ :=
    cut_at_stop h (List.mem_append_left _ hmem) hlength.symm
  have hsplit := append_inj_of_forall (p := fun t => decide (t.span.stop ≤ last.span.stop)) heq
    (fun t ht => decide_eq_true (horder.append_left.stop_le_last hlast ht))
    (fun t ht => decide_eq_false fun hle => ?_)
    (fun t ht => decide_eq_true (hlength ▸ (inOrder_of_scan hbefore).2 t ht))
    (fun t ht => decide_eq_false fun hle => ?_)
  · rw [hsplit.1]
    exact hbefore
  · have hnext := horder.stop_le hmem ht
    have hsolid := horder.append_right.solid t ht
    omega
  · have hnext := hlater t ht
    have hsolid := horder.solid t (heq ▸ List.mem_append_right _ ht)
    omega

/-- A text from the beginning of a token on has the tokens from that one on. -/
theorem scan_drop (h : scan cs = .ok (pre ++ post)) (hfirst : post.head? = some first)
    (hdot : first.lexeme ≠ .symbol .dot) :
    ∃ us, scan (cs.drop first.span.start) = .ok us ∧
      post = us.map (Token.shift first.span.start) := by
  obtain ⟨horder, hwithin⟩ := inOrder_of_scan h
  have hmem := List.mem_of_head? hfirst
  have hlength : (cs.take first.span.start).length = first.span.start := by
    have hstop := hwithin first (List.mem_append_right _ hmem)
    have hsolid := horder.append_right.solid first hmem
    rw [List.length_take]
    omega
  rw [← List.take_append_drop first.span.start cs] at h
  obtain ⟨before, us, hbefore, hus, heq⟩ :=
    cut_at_start h (List.mem_append_right _ hmem) hlength.symm hdot
  rw [hlength] at heq
  have hsplit := append_inj_of_forall (p := fun t => decide (t.span.start < first.span.start)) heq
    (fun t ht => decide_eq_true ?_) (fun t ht => decide_eq_false fun hless => ?_)
    (fun t ht => decide_eq_true ?_) (fun t ht => decide_eq_false fun hless => ?_)
  · exact ⟨us, hus, hsplit.2⟩
  · have hnext := horder.stop_le ht hmem
    have hsolid := horder.append_left.solid t ht
    omega
  · have hle := horder.append_right.start_le hfirst ht
    omega
  · obtain ⟨hbeforeOrder, hbeforeWithin⟩ := inOrder_of_scan hbefore
    have hle := hbeforeWithin t ht
    have hsolid := hbeforeOrder.solid t ht
    omega
  · obtain ⟨u, -, rfl⟩ := List.mem_map.mp ht
    exact absurd hless (Nat.not_lt.mpr (Nat.le_add_left _ _))

/-- **A stretch from one token to another** has the tokens that it has in the whole text, unless it
begins with a point. -/
theorem scan_slice (h : scan cs = .ok (pre ++ (mid ++ post))) (hfirst : mid.head? = some first)
    (hlast : mid.getLast? = some last) (hdot : first.lexeme ≠ .symbol .dot) :
    ∃ us, scan (Span.slice ⟨first.span.start, last.span.stop⟩ cs) = .ok us ∧
      mid = us.map (Token.shift first.span.start) := by
  have hslice : Span.slice ⟨first.span.start, last.span.stop⟩ cs =
      (cs.take last.span.stop).drop first.span.start := by
    rw [Span.slice, List.extract_eq_take_drop, List.drop_take]
  rw [← List.append_assoc] at h
  rw [hslice]
  exact scan_drop (scan_take h (by simp [hlast])) hfirst hdot

end Stretches

end Script.Lexer
