import Script.Proofs.Grammar.Blame
import Script.Proofs.Grammar.Program
import Script.Proofs.Token.Lossless

/-!
# Reading stays in range

A token that is made while a text is read spans characters of the text, also if the text has no
tokens in the end.  Wherever a stream over the tokens of a text stands, there is a token at that
place, and looking ahead or back finds a token of the text.

What is read is of the right kind.  The numerals among the tokens are numerals, so the parser never
calls one malformed.

## Main definitions

* `Lexer.Makes`: the tokens that are made while a text is read.
* `TokenStream.Along`: the streams over the tokens of a text.
* `TokenStream.Placed`: the laws of a place in a sequence of tokens.

## Main results

* `Lexer.Makes.within`: a token that is made spans the characters that spell it.
* `TokenStream.Along.placed`, `TokenStream.Along.parseNext`: a stream over the tokens of a text
  stands at one of their places, and so it does after the next statement.
* `TokenStream.Along.cause_ne`: no numeral is malformed.
-/

namespace Script

/-! ## Characters -/

namespace Lexer

variable {source : String} {t : Token}

/-- The token is made while the characters of the source are read: it is finished after some of
them, or what is begun there amounts to it. -/
def Makes (source : String) (t : Token) : Prop :=
  ∃ l front back, source.toList = front ++ back ∧ start.feed front = .ok l ∧
    (t ∈ l.done ∨ ∃ ended, l.mode.close l.index = .ok ended ∧ t ∈ ended)

/-- The text up to the last token that is finished when a mode is closed. -/
theorem Follows.exists_laid {text : List Char} {us ts : List Token} {mode : Mode}
    (h : Follows text us mode) (hclose : mode.close text.length = .ok ts) :
    ∃ front tail, text = front ++ tail ∧ Laid front (us ++ ts) := by
  by_cases hline : mode = .lineComment
  · subst hline
    obtain ⟨front, tail, htext, hlaid, -⟩ := h
    cases hclose
    exact ⟨front, tail, htext, by simpa using hlaid⟩
  · exact ⟨text, [], by simp, h.close hclose hline⟩

/-- A token that is made stands in a text that is made up of tokens. -/
theorem Makes.exists_laid (h : Makes source t) :
    ∃ front back ts, source.toList = front ++ back ∧ Laid front ts ∧ t ∈ ts := by
  obtain ⟨l, front, back, hsource, hfeed, ht⟩ := h
  have hfollows := follows_of_feed Laid.nil.follows rfl hfeed
  rw [List.nil_append] at hfollows
  have hindex := index_of_start_feed hfeed
  rcases ht with ht | ⟨ended, hclose, ht⟩
  · obtain ⟨laid, tail, rfl, hlaid, -⟩ := hfollows
    exact ⟨laid, tail ++ back, _, by simpa using hsource, hlaid, by simpa using ht⟩
  · rw [hindex] at hclose
    obtain ⟨laid, tail, rfl, hlaid⟩ := hfollows.exists_laid hclose
    exact ⟨laid, tail ++ back, _, by simpa using hsource, hlaid, List.mem_append_right _ ht⟩

/-- **A token that is made spans characters of the source**, and these spell it. -/
theorem Makes.within (h : Makes source t) :
    t.span.start < t.span.stop ∧ t.span.stop ≤ source.length ∧
      Spells (t.span.slice source.toList) t.lexeme := by
  obtain ⟨front, back, ts, hsource, hlaid, ht⟩ := h.exists_laid
  obtain ⟨hstart, hstop⟩ := hlaid.within t ht
  have hlength : source.length = front.length + back.length := by
    rw [← String.length_toList, hsource, List.length_append]
  refine ⟨hstart, by omega, ?_⟩
  rw [hsource, slice_append hstop]
  exact hlaid.spells t ht

/-- What is read as a numeral is one. -/
theorem isSome_read?_of_spells {word : List Char} {numeral : String}
    (h : Spells word (.number numeral)) : (Numeral.read? numeral).isSome = true := by
  have hkind : Lexeme.ofText? numeral = some (.number numeral) := h.2
  unfold Lexeme.ofText? at hkind
  split at hkind
  · -- a word is a keyword or an identifier
    unfold Lexeme.ofWord at hkind
    split at hkind <;> cases hkind
  · split at hkind
    · next hsome => exact hsome
    · obtain ⟨mark, -, heq⟩ := Option.map_eq_some_iff.mp hkind
      cases heq

/-- The tokens of a text are made while it is read. -/
theorem makes_of_scan {ts : List Token} (h : scan source.toList = .ok ts) (ht : t ∈ ts) :
    Makes source t := by
  obtain ⟨l, hfeed, hfinish⟩ := exists_of_bind h
  obtain ⟨ended, hclose, heq⟩ := exists_of_bind hfinish
  cases heq
  refine ⟨l, source.toList, [], by simp, hfeed, ?_⟩
  rcases List.mem_append.mp ht with ht | ht
  · exact .inl (by simpa using ht)
  · exact .inr ⟨ended, hclose, ht⟩

end Lexer

/-! ## Places -/

namespace TokenStream

variable {source : String} {s s' : TokenStream} {tokens : List Token}

/-- The stream stands somewhere in the tokens of the source. -/
def Along (source : String) (s : TokenStream) : Prop :=
  ∃ first ts, ofSource source = .ok first ∧ first.Passes ts s

/-- The stream stands at one of the places of a sequence of tokens.  Places are counted from zero,
and every one that is looked at holds a token. -/
structure Placed (tokens : List Token) (s : TokenStream) : Prop where
  position_lt : s.position < tokens.length
  /-- Looking ahead goes no further than to the last place. -/
  ahead : ∀ n, tokens[min (s.position + n) (tokens.length - 1)]? = some (s.peekNth n)
  /-- There is a token behind every place but the first. -/
  behind : ∀ k, s.position = k + 1 → ∃ t, tokens[k]? = some t ∧ s.previous? = some t
  first : s.position = 0 → s.previous? = none
  /-- Moving past a token that is no end mark leads to the next place. -/
  advance : s.here.isEnd = false → s.advance.position = s.position + 1 ∧
    s.advance.position < tokens.length

theorem Passes.toList_eq {ts : List Token} (h : s.Passes ts s') : s'.toList = s.toList := by
  show s'.behind.reverse ++ s'.rest = s.behind.reverse ++ s.rest
  rw [h.rest_eq, h.behind_eq]
  simp

theorem length_toList (s : TokenStream) : s.toList.length = s.length := by
  simp only [toList, length, List.length_append, List.length_reverse, List.length_cons]
  omega

/-- The tokens from the current one on. -/
theorem getElem?_toList (s : TokenStream) (n : Nat) :
    s.toList[s.position + n]? = s.rest[n]? := by
  rw [toList, List.getElem?_append_right (by simp [position])]
  simp [position, rest]

/-- Looking ahead shows the tokens from the current one on, and then the last one again. -/
theorem getElem?_rest (s : TokenStream) (n : Nat) :
    s.rest[min n s.ahead.length]? = some (s.peekNth n) := by
  obtain ⟨behind, here, ahead⟩ := s
  cases n with
  | zero => simp [rest, peekNth]
  | succ n =>
    simp only [rest, peekNth, List.getD_eq_getElem?_getD]
    rcases Nat.lt_or_ge n ahead.length with hless | hge
    · rw [Nat.min_eq_left hless, List.getElem?_cons_succ, List.getElem?_eq_getElem hless]
      rfl
    · have hlast : (here :: ahead)[ahead.length]? = (here :: ahead).getLast? := by
        rw [List.getLast?_eq_getElem?]
        rfl
      rw [Nat.min_eq_right (by omega), List.getElem?_eq_none hge, hlast, List.getLast?_cons,
        List.getLastD_eq_getLast?]
      rfl

/-- **A stream stands at one of its places.** -/
theorem placed_toList (hs : s.Closed) : s.Placed s.toList where
  position_lt := by
    rw [length_toList, length, position]
    omega
  ahead n := by
    have hlast : min (s.position + n) (s.toList.length - 1) =
        s.position + min n s.ahead.length := by
      rw [length_toList, length, position]
      omega
    rw [hlast, getElem?_toList, getElem?_rest]
  behind k hk := by
    obtain ⟨behind, here, ahead⟩ := s
    cases behind with
    | nil => cases hk
    | cons t behind =>
      obtain rfl : behind.length = k := by simpa [position] using hk
      refine ⟨t, ?_, rfl⟩
      simp [toList]
  first hzero := by
    have hnil : s.behind = [] := List.eq_nil_of_length_eq_zero hzero
    rw [previous?, hnil]
    rfl
  advance hhere := by
    have hpass := passes_advance hs hhere
    have hposition : s.advance.position = s.position + 1 := by
      rw [position, hpass.behind_eq, position]
      simp
    refine ⟨hposition, ?_⟩
    rw [← hpass.toList_eq, length_toList, length, position]
    omega

theorem Along.closed (h : s.Along source) : s.Closed := by
  obtain ⟨first, ts, hfirst, hpass⟩ := h
  exact hpass.closed (ofSource_closed hfirst)

theorem Along.trans {ts : List Token} (h : s.Along source) (hpass : s.Passes ts s') :
    s'.Along source := by
  obtain ⟨first, us, hfirst, hfirstPass⟩ := h
  exact ⟨first, us ++ ts, hfirst, hfirstPass.trans hpass⟩

/-- **A stream over the tokens of a text stands at one of their places.** -/
theorem Along.placed (h : s.Along source) (htokens : tokenize source = .ok tokens) :
    s.Placed tokens := by
  have hplaced := placed_toList h.closed
  obtain ⟨first, ts, hfirst, hpass⟩ := h
  obtain ⟨us, hscan, heq⟩ := Lexer.exists_of_bind hfirst
  obtain ⟨us', hscan', heq'⟩ := Lexer.exists_of_bind htokens
  cases heq
  cases heq'
  cases hscan.symm.trans hscan'
  rwa [hpass.toList_eq, toList_ofTokens] at hplaced

/-- **The next statement leads to a place**, and so does the attempt to parse one. -/
theorem Along.parseNext (h : s.Along source) {r : Except ParseError (Stmt Span)}
    (hparse : s.parseNext = (r, s')) : s'.Along source := by
  cases r with
  | ok stmt =>
    obtain ⟨ts, hpass, -⟩ := Grammar.derives_of_parseNext h.closed hparse
    exact h.trans hpass
  | error e =>
    obtain ⟨ts, hpass, -⟩ := founded_of_parseNext h.closed hparse
    exact h.trans hpass

/-! ## Numerals -/

/-- A token of a text is made while the text is read, or it is the end mark. -/
theorem Along.makes {t : Token} (h : s.Along source) (ht : t ∈ s.toList) :
    Lexer.Makes source t ∨ t = .endAt source.length := by
  obtain ⟨first, ts, hfirst, hpass⟩ := h
  obtain ⟨us, hscan, heq⟩ := Lexer.exists_of_bind hfirst
  cases heq
  rw [hpass.toList_eq, toList_ofTokens, List.mem_append, List.mem_singleton] at ht
  exact ht.imp_left (Lexer.makes_of_scan hscan)

/-- **No numeral is malformed.** -/
theorem Along.cause_ne {e : ParseError} (h : s.Along source)
    (hparse : s.parseNext = (.error e, s')) : e.cause ≠ .malformedNumeral := by
  intro hcause
  obtain ⟨ts, hpass, htoken, hfounded⟩ := founded_of_parseNext h.closed hparse
  obtain ⟨numeral, hnumber, hread⟩ := hfounded hcause
  have hmem : e.token ∈ s.toList := by
    have hlater : e.token ∈ s.rest := by
      rw [hpass.rest_eq]
      rcases List.mem_append.mp htoken with hpassed | hhere
      · exact List.mem_append_left _ hpassed
      · rw [List.mem_singleton.mp hhere]
        exact List.mem_append_right _ (.head _)
    exact List.mem_append_right _ hlater
  rcases h.makes hmem with hmakes | heq
  · have hspells := hmakes.within.2.2
    rw [hnumber] at hspells
    have hsome := Lexer.isSome_read?_of_spells hspells
    rw [hread] at hsome
    cases hsome
  · rw [heq] at hnumber
    cases hnumber

end TokenStream

end Script
