import Script.Proofs.Grammar.Lookahead
import Script.Proofs.Run.TwoPhase

/-!
# The place in a token stream

Whatever is done with the tokens of a source, the place in them moves forward and stays at a token.
Looking, moving on and parsing statements may come in any order, and parsing may go on after it has
failed: each of these passes some tokens, so the laws hold wherever they lead.

A statement takes at least one token.  So a pass over a source runs fewer statements than there are
tokens, and the number of rounds that it is given plays no part.

## Main definitions

* `TokenStream.Call`: what can be done with a stream.
* `TokenStream.after`: the stream after a sequence of calls.
* `TokenStream.Ordered`: the laws of a place that the calls lead to.

## Main results

* `TokenStream.passes_after`: calls lead forward.
* `Pass.runTokens_of_le`: the number of rounds plays no part.
* `Pass.cursor_safety`: the laws hold after all calls, and bound the statements of a pass.
-/

namespace Script

namespace TokenStream

/-! ## Calls -/

/-- What can be done with a stream. -/
inductive Call where
  | peek
  | advance
  | parseNext
  deriving DecidableEq, Repr

/-- The stream after a call. -/
def Call.after (s : TokenStream) : Call → TokenStream
  | .peek => s
  | .advance => s.advance
  | .parseNext => s.parseNext.2

/-- The stream after a sequence of calls. -/
def after (s : TokenStream) (calls : List Call) : TokenStream := calls.foldl Call.after s

variable {source : String} {first s s' : TokenStream} {e : ParseError} {stmt : Stmt Span}

/-- **One call leads forward**, past the tokens between the old place and the new one. -/
theorem Call.passes (hs : s.Closed) (call : Call) : ∃ ts, s.Passes ts (call.after s) := by
  cases call with
  | peek => exact ⟨[], .refl s⟩
  | advance =>
    cases hend : s.here.isEnd with
    | false => exact ⟨[s.here], passes_advance hs hend⟩
    | true =>
      have hstay : Call.after s .advance = s := by simp [Call.after, TokenStream.advance, hend]
      exact ⟨[], by rw [hstay]; exact .refl s⟩
  | parseNext =>
    obtain ⟨ts, s', r, hpass, hparse, -⟩ := exists_ends_parseNext hs (Nat.le_refl _)
    exact ⟨ts, by rw [Call.after, hparse]; exact hpass⟩

/-- **Calls lead forward.** -/
theorem passes_after (hs : s.Closed) (calls : List Call) : ∃ ts, s.Passes ts (s.after calls) := by
  induction calls generalizing s with
  | nil => exact ⟨[], .refl s⟩
  | cons call calls ih =>
    obtain ⟨ts, hpass⟩ := call.passes hs
    obtain ⟨us, hrest⟩ := ih (hpass.closed hs)
    exact ⟨ts ++ us, hpass.trans hrest⟩

/-! ## Laws of a place -/

/-- **The laws of a place in the tokens of a stream.**  Positions are counted from zero, and the
stream `first` has the end mark at its last one. -/
structure Ordered (first s : TokenStream) : Prop where
  tokens : s.toList = first.toList
  position_le : s.position ≤ first.length - 1
  hasRemaining_iff : s.hasRemaining = true ↔ s.position < first.length - 1
  /-- No calls lead back. -/
  forward : ∀ calls, s.position ≤ (s.after calls).position
  /-- Parsing comes to an end by itself: a greater depth changes nothing, -/
  settled : ∀ d, s.depthBound ≤ d → Parser.statement d s = Parser.statement s.depthBound s
  /-- and no failure is for want of depth. -/
  deep_enough : ∀ e s', s.parseNext = (.error e, s') → e.cause ≠ .tooDeep
  /-- A statement takes a token. -/
  progress : ∀ stmt s', s.parseNext = (.ok stmt, s') → s.position < s'.position
  /-- A failure is at a token between the old place and the new one. -/
  blame : ∀ e s', s.parseNext = (.error e, s') →
    ∃ n, s.position ≤ n ∧ n ≤ s'.position ∧ first.toList[n]? = some e.token
  /-- There is no statement at the end mark. -/
  at_end : s.hasRemaining = false → ∃ e, s.parseNext = (.error e, s)

theorem Passes.position_le {ts : List Token} (h : s.Passes ts s') : s.position ≤ s'.position := by
  rw [h.position_eq]
  exact Nat.le_add_right _ _

theorem position_add_remaining (s : TokenStream) : s.position + s.remaining = s.length - 1 := by
  unfold position remaining length
  omega

theorem Passes.length_eq {ts : List Token} (h : s.Passes ts s') : s'.length = s.length := by
  rw [← length_toList, ← length_toList, h.toList_eq]

theorem position_of_parseNext (hs : s.Closed) (h : s.parseNext = (.ok stmt, s')) :
    s.position < s'.position := by
  have hless := remaining_of_parseNext hs h
  obtain ⟨ts, hpass, -⟩ := Grammar.derives_of_parseNext hs h
  have hlength := hpass.remaining_eq
  rw [hpass.position_eq]
  omega

/-- The last token of a closed stream is an end mark. -/
theorem isEnd_here_of_remaining (hs : s.Closed) (hzero : s.remaining = 0) :
    s.here.isEnd = true := by
  obtain ⟨mark, hlast, hmark⟩ := hs
  rw [rest, List.eq_nil_of_length_eq_zero hzero] at hlast
  cases hlast
  exact hmark

/-- Only the last token of a source is an end mark. -/
theorem isEnd_here_iff {ts : List Token} (hfirst : ofSource source = .ok first)
    (hpass : first.Passes ts s) : s.here.isEnd = true ↔ s.remaining = 0 := by
  obtain ⟨us, hscan, heq⟩ := Lexer.exists_of_bind hfirst
  cases heq
  have htokens : s.behind.reverse ++ s.here :: s.ahead = us ++ [.endAt source.length] := by
    rw [← toList_ofTokens, ← hpass.toList_eq]
    rfl
  refine ⟨fun hend => ?_, isEnd_here_of_remaining (hpass.closed (ofSource_closed hfirst))⟩
  rcases List.eq_nil_or_concat s.ahead with hnil | ⟨init, last, hahead⟩
  · rw [remaining, hnil, List.length_nil]
  · rw [hahead, List.concat_eq_append] at htokens
    have hfront : (s.behind.reverse ++ s.here :: init) ++ [last] =
        us ++ [.endAt source.length] := by simpa using htokens
    have hmem : s.here ∈ us := by
      rw [← (List.append_inj' hfront rfl).1]
      simp
    exact absurd (Token.isEnd_iff.mp hend) (Lexer.unmarked_of_scan hscan _ hmem)

/-- **The calls on the tokens of a source lead from law to law.** -/
theorem ordered_of_passes {ts : List Token} (hfirst : ofSource source = .ok first)
    (hpass : first.Passes ts s) : Ordered first s := by
  have hs := hpass.closed (ofSource_closed hfirst)
  have hplace := position_add_remaining s
  rw [hpass.length_eq] at hplace
  have hend := isEnd_here_iff hfirst hpass
  have hremaining : s.hasRemaining = true ↔ 0 < s.remaining := by
    rw [hasRemaining, Bool.not_eq_true', ← Bool.not_eq_true, hend]
    omega
  refine ⟨hpass.toList_eq, by omega, by rw [hremaining]; omega, ?_, ?_, ?_, ?_, ?_, ?_⟩
  · intro calls
    obtain ⟨us, hafter⟩ := passes_after hs calls
    exact hafter.position_le
  · exact fun d hd => statement_eq_of_le hs hd
  · exact fun e s' h => cause_ne_tooDeep hs h
  · exact fun stmt s' h => position_of_parseNext hs h
  · intro e s' h
    obtain ⟨us, hus, htoken, -⟩ := founded_of_parseNext hs h
    obtain ⟨n, hn⟩ := List.mem_iff_getElem?.mp htoken
    have hless := (List.getElem?_eq_some_iff.mp hn).1
    rw [List.length_append, List.length_singleton] at hless
    refine ⟨s.position + n, Nat.le_add_right _ _, by rw [hus.position_eq]; omega, ?_⟩
    have hrest : s.rest = (us ++ [s'.here]) ++ s'.ahead := by
      rw [hus.rest_eq, List.append_assoc]
      rfl
    rw [← hpass.toList_eq, getElem?_toList, hrest, List.getElem?_append_left (by simpa using hless)]
    exact hn
  · intro hnone
    have hzero : s.remaining = 0 := by
      refine Nat.eq_zero_of_not_pos fun hmore => ?_
      rw [hremaining.mpr hmore] at hnone
      cases hnone
    obtain ⟨us, s', r, hus, hparse, -⟩ := exists_ends_parseNext hs (Nat.le_refl _)
    have hstay : us = [] := by
      have hlength := hus.remaining_eq
      exact List.eq_nil_of_length_eq_zero (by omega)
    subst hstay
    rw [← hus.eq_of_nil] at hparse
    cases r with
    | ok stmt => exact absurd (remaining_of_parseNext hs hparse) (Nat.lt_irrefl _)
    | error e => exact ⟨e, hparse⟩

end TokenStream

/-! ## The statements of a pass -/

namespace Pass

variable {ω : Type} {p : Pass ω} {source : String} {first s : TokenStream}

/-- The statements of a program have a token each. -/
theorem length_program_le (hs : s.Closed) : (s.program hs).statements.length ≤ s.remaining := by
  induction s, hs using TokenStream.program.induct with
  | case1 s hs hmore e s' he =>
    rw [TokenStream.program_of_error hs hmore he]
    exact Nat.zero_le _
  | case2 s hs hmore stmt s' hstmt hless ih =>
    rw [TokenStream.program_of_ok hs hmore hstmt]
    exact Nat.lt_of_le_of_lt ih hless
  | case3 s hs hmore =>
    rw [TokenStream.program_of_end hs (Bool.not_eq_true _ ▸ hmore)]
    exact Nat.zero_le _

/-- One round more makes no difference if there is a round for every token that is left. -/
theorem runTokens_succ {rounds : Nat} (hs : s.Closed) (hrounds : s.remaining ≤ rounds)
    (now : Progress ω) : p.runTokens (rounds + 1) s now = p.runTokens rounds s now := by
  induction rounds generalizing s now with
  | zero =>
    have hend := TokenStream.isEnd_here_of_remaining hs (Nat.le_zero.mp hrounds)
    simp [runTokens, TokenStream.hasRemaining, hend]
  | succ rounds ih =>
    rw [runTokens]
    conv => rhs; rw [runTokens]
    split
    · cases hparse : s.parseNext with
      | mk r s' =>
        cases r with
        | error e => rfl
        | ok stmt =>
          have hless := TokenStream.remaining_of_parseNext hs hparse
          have hrest := funext fun now =>
            ih (TokenStream.closed_of_parseNext hs hparse) (by omega) now
          simp only [hrest]
    · rfl

/-- **The number of rounds plays no part** if there is a round for every token but the end mark. -/
theorem runTokens_of_le {rounds : Nat} (hfirst : TokenStream.ofSource source = .ok first)
    (hrounds : first.length - 1 ≤ rounds) (now : Progress ω) :
    p.runTokens rounds first now = p.runSource source now := by
  have hclosed := TokenStream.ofSource_closed hfirst
  have hplace := TokenStream.position_add_remaining first
  have hall : ∀ n, first.remaining ≤ n →
      p.runTokens n first now = p.runTokens first.remaining first now := by
    intro n hn
    induction hn with
    | refl => rfl
    | step hle ih => rw [runTokens_succ hclosed hle, ih]
  have hsource : p.runSource source now = p.runTokens first.length first now := by
    rw [runSource, hfirst]
  rw [hsource, hall rounds (by omega), hall first.length (by omega)]

/-- **Safety and progress of the place in a source.**  The laws hold after every sequence of calls
on the tokens of a source.  So every pass over the source comes to fewer statements than there are
tokens, and as many rounds are enough. -/
theorem cursor_safety (p : Pass ω) (hfirst : TokenStream.ofSource source = .ok first) :
    (∀ calls, TokenStream.Ordered first (first.after calls)) ∧
      ∀ now : Progress ω,
        (∀ before s now', p.Starts source now before s now' →
          before.length + 1 ≤ first.length - 1) ∧
        ∀ rounds, first.length - 1 ≤ rounds →
          p.runTokens rounds first now = p.runSource source now := by
  have hclosed := TokenStream.ofSource_closed hfirst
  refine ⟨fun calls => ?_, fun now => ⟨?_, fun rounds hrounds => ?_⟩⟩
  · obtain ⟨ts, hpass⟩ := TokenStream.passes_after hclosed calls
    exact TokenStream.ordered_of_passes hfirst hpass
  · rintro before s now' ⟨program, rest, hprogram, hcode, -⟩
    rw [readProgram_of_ok hfirst] at hprogram
    cases hprogram
    have hcount := length_program_le hclosed
    have hlength := congrArg List.length hcode
    rw [Program.code, List.length_map, List.length_append, List.length_cons] at hlength
    have hplace := TokenStream.position_add_remaining first
    omega
  · exact runTokens_of_le hfirst hrounds now

/-- The tokens of a source in which three attempts to parse a statement fail. -/
def brokenTokens : TokenStream :=
  .ofTokens [⟨.keyword .letWord, ⟨0, 3⟩⟩, ⟨.symbol .assign, ⟨4, 5⟩⟩, ⟨.symbol .rightParen, ⟨6, 7⟩⟩,
    ⟨.identifier "f", ⟨8, 9⟩⟩] (.endAt 9)

/-- Two failures, a step past each of them, a statement, and an attempt at the end mark. -/
theorem cursor_safety_broken :
    TokenStream.ofSource "let = ) f" = .ok brokenTokens ∧
      (brokenTokens.after [.parseNext]).position = 1 ∧
      (brokenTokens.after [.parseNext, .advance, .parseNext]).position = 2 ∧
      (brokenTokens.after [.parseNext, .advance, .parseNext, .advance, .parseNext,
        .parseNext]).position = 4 ∧
      TokenStream.Ordered brokenTokens (brokenTokens.after [.parseNext, .advance, .parseNext,
        .advance, .parseNext, .parseNext]) ∧
      (Batch.pass 9).runTokens 4 brokenTokens ⟨.prelude, .unlimited, ()⟩ =
        (Batch.pass 9).runSource "let = ) f" ⟨.prelude, .unlimited, ()⟩ := by
  have hfirst : TokenStream.ofSource "let = ) f" = .ok brokenTokens := by rfl
  obtain ⟨hordered, hpass⟩ := cursor_safety (Batch.pass 9) hfirst
  exact ⟨hfirst, rfl, rfl, rfl, hordered _, (hpass ⟨.prelude, .unlimited, ()⟩).2 4 (by decide)⟩

end Pass

end Script
