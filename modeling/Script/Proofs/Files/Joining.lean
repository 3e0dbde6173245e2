import Mathlib.Data.List.Induction
import Script.Files.Tree
import Script.Proofs.Token.Composition

/-!
# Files are read in listing order

The texts of source files become one text, with a space between them.  A space ends whatever a file
may end with, be it a word, a numeral or half of a symbol, and begins nothing.  There is one
exception: a comment behind two slashes goes on to the end of the line.  If no file but the last one
ends inside such a comment, the tokens of all files are those of the single files, one after the
other.  If a file does, the comment hides the files behind it, up to the first line end in them.

## Main definitions

* `Lexer.EndsInComment`: texts whose last line has an open comment.
* `Lexer.joined`, `Lexer.placed`: texts with a space between them, and the tokens of each at its
  place.
* `Files.Lists`: files with their texts and tokens.

## Main results

* `Lexer.endsInComment_iff`: the machine ends in a comment on these texts, and on no others.
* `Lexer.scan_joined`: texts keep their tokens, if no text but the last one ends inside a comment.
* `Files.tokens_in_listing_order`: the same for files.
* `Files.comment_hides_line`: what is hidden if a file ends inside a comment.
-/

namespace Script

@[simp] theorem Token.map_shift_zero (ts : List Token) : ts.map (Token.shift 0) = ts :=
  List.map_id ts

theorem Token.shift_shift (i k : Nat) (t : Token) : (t.shift i).shift k = t.shift (i + k) := by
  simp only [Token.shift, Span.shift_shift]

namespace Lexer

variable {a b cs : List Char} {ts : List Token} {l l' : Lexer} {c : Char}

/-! ## Spaces -/

/-- A space continues nothing that a text may end with but the comment to the end of a line. -/
theorem Mode.extend?_space {mode : Mode} {i : Nat} {ended : List Token}
    (h : mode.close i = .ok ended) (hmode : mode ≠ .lineComment) : mode.extend? i ' ' = none := by
  cases mode with
  | gap | word _ _ | digits _ _ | point _ _ | fraction _ _ | slash _ => rfl
  | quoted _ _ _ | escaped _ _ _ | blockComment _ _ _ => cases h
  | lineComment => exact absurd rfl hmode
  | lead start first => cases first <;> rfl

theorem step_space (h : l.finish = .ok ts) (hmode : l.mode ≠ .lineComment) :
    l.step ' ' = .ok ⟨l.index + 1, .gap, ts.reverse⟩ := by
  obtain ⟨ended, hclose, h⟩ := exists_of_bind h
  cases h
  have hbegin : begin l.index ' ' = .ok ([], .gap) := rfl
  simp only [step, Mode.extend?_space hclose hmode, hclose, hbegin]
  simp [bind, Except.bind]

/-! ## Comments to the end of a line -/

/-- The text ends inside a comment that goes on to the end of the line: two slashes stand where a
token could begin, and no line end follows. -/
def EndsInComment (cs : List Char) : Prop :=
  ∃ before rest ts, scan before = .ok ts ∧ cs = before ++ '/' :: '/' :: rest ∧ '\n' ∉ rest

theorem Mode.extend?_ne_slash {mode : Mode} {i start : Nat} :
    mode.extend? i c ≠ some (ts, .slash start) := by
  unfold Mode.extend? stepComment
  grind

theorem begin_eq_slash {i start : Nat} (h : begin i c = .ok (ts, .slash start)) : c = '/' := by
  unfold begin at h
  grind

theorem begin_ne_lineComment {i : Nat} : begin i c ≠ .ok (ts, .lineComment) := by
  unfold begin
  grind

theorem Mode.extend?_eq_lineComment {mode : Mode} {i : Nat}
    (h : mode.extend? i c = some (ts, .lineComment)) :
    (∃ start, mode = .slash start ∧ c = '/') ∨ mode = .lineComment ∧ c ≠ '\n' := by
  unfold Mode.extend? stepComment at h
  grind

/-- A slash that may begin a comment stands behind a text that has tokens. -/
theorem exists_of_mode_eq_slash {k : Nat} (h : start.feed cs = .ok l) (hmode : l.mode = .slash k) :
    ∃ before ts, scan before = .ok ts ∧ cs = before ++ ['/'] := by
  rcases List.eq_nil_or_concat cs with rfl | ⟨before, c, rfl⟩
  · cases h
    cases hmode
  · rw [List.concat_eq_append] at h ⊢
    obtain ⟨l', hfeed, hstep⟩ := exists_of_feed_concat h
    rcases step_cases hstep with
      ⟨us, mode, hextend, rfl⟩ | ⟨ended, us, mode, -, hclose, hbegin, rfl⟩
    · cases (show mode = .slash k from hmode)
      exact absurd hextend Mode.extend?_ne_slash
    · cases (show mode = .slash k from hmode)
      cases begin_eq_slash hbegin
      rw [index_of_start_feed hfeed] at hclose
      exact ⟨before, l'.done.reverse ++ ended, scan_of_close hfeed hclose, rfl⟩

theorem endsInComment_of_mode (h : start.feed cs = .ok l) (hmode : l.mode = .lineComment) :
    EndsInComment cs := by
  induction cs using List.reverseRecOn generalizing l with
  | nil =>
    cases h
    cases hmode
  | append_singleton cs c ih =>
    obtain ⟨l', hfeed, hstep⟩ := exists_of_feed_concat h
    rcases step_cases hstep with ⟨us, mode, hextend, rfl⟩ | ⟨ended, us, mode, -, -, hbegin, rfl⟩
    · cases (show mode = .lineComment from hmode)
      rcases Mode.extend?_eq_lineComment hextend with ⟨k, hslash, rfl⟩ | ⟨hcomment, hc⟩
      · -- the second slash: the first one stands behind a text that has tokens
        obtain ⟨before, ts, hscan, rfl⟩ := exists_of_mode_eq_slash hfeed hslash
        exact ⟨before, [], ts, hscan, by simp, by simp⟩
      · obtain ⟨before, rest, ts, hscan, rfl, hrest⟩ := ih hfeed hcomment
        refine ⟨before, rest ++ [c], ts, hscan, by simp, ?_⟩
        simpa [hrest] using hc.symm
    · cases (show mode = .lineComment from hmode)
      exact absurd hbegin begin_ne_lineComment

theorem Mode.extend?_slash {mode : Mode} {i : Nat} {ended : List Token}
    (h : mode.close i = .ok ended) :
    mode.extend? i '/' = none ∨ mode.extend? i '/' = some ([], .lineComment) := by
  cases mode with
  | gap | word _ _ | digits _ _ | point _ _ | fraction _ _ => exact .inl rfl
  | quoted _ _ _ | escaped _ _ _ | blockComment _ _ _ => cases h
  | slash _ | lineComment => exact .inr rfl
  | lead start first => cases first <;> exact .inl rfl

/-- Two slashes behind a text that has tokens lead into a comment. -/
theorem feed_slashes (h : l.finish = .ok ts) :
    ∃ l', l.feed ['/', '/'] = .ok l' ∧ l'.mode = .lineComment := by
  obtain ⟨ended, hclose, -⟩ := exists_of_bind h
  have hbegin : begin l.index '/' = .ok ([], .slash l.index) := rfl
  rcases Mode.extend?_slash hclose with hextend | hextend
  · have hfirst : l.step '/' = .ok ⟨l.index + 1, .slash l.index, ended.reverse ++ l.done⟩ := by
      simp only [step, hextend, hclose, hbegin]
      rfl
    exact ⟨_, feed_cons hfirst _, rfl⟩
  · have hfirst : l.step '/' = .ok ⟨l.index + 1, .lineComment, l.done⟩ := by
      simp only [step, hextend]
      rfl
    exact ⟨_, feed_cons hfirst _, rfl⟩

/-- Inside a comment, everything up to the end of the line is part of the comment. -/
theorem feed_comment (hmode : l.mode = .lineComment) (hcs : '\n' ∉ cs) :
    l.feed cs = .ok ⟨l.index + cs.length, .lineComment, l.done⟩ := by
  obtain ⟨index, mode, done⟩ := l
  cases hmode
  have hall : cs.all (· ≠ '\n') = true := by
    rw [List.all_eq_true]
    intro c hc
    have hne : c ≠ '\n' := fun heq => hcs (heq ▸ hc)
    simpa using hne
  exact @feed_run (fun _ => .lineComment) (· ≠ '\n')
    (fun _ _ c hc => by simpa [Mode.extend?] using hc) cs hall index [] done

/-- A text ends inside a comment if the machine does. -/
theorem endsInComment_iff :
    EndsInComment cs ↔ ∃ l, start.feed cs = .ok l ∧ l.mode = .lineComment := by
  constructor
  · rintro ⟨before, rest, ts, hscan, rfl, hrest⟩
    obtain ⟨l, hfeed, hfinish⟩ := exists_of_bind hscan
    obtain ⟨l', hslashes, hmode⟩ := feed_slashes hfinish
    have hall : start.feed (before ++ '/' :: '/' :: rest) = l'.feed rest := by
      rw [feed_append hfeed]
      exact feed_append hslashes rest
    exact ⟨_, hall.trans (feed_comment hmode hrest), rfl⟩
  · rintro ⟨l, hfeed, hmode⟩
    exact endsInComment_of_mode hfeed hmode

instance : DecidablePred EndsInComment := fun cs =>
  decidable_of_iff ((start.feed cs).toOption.map Lexer.mode = some .lineComment) <| by
    rw [endsInComment_iff]
    cases start.feed cs with
    | error e => simp [Except.toOption]
    | ok l => simp [Except.toOption]

/-- **A comment hides the rest of its line**, also if it comes from another text. -/
theorem scan_append_of_endsInComment (h : EndsInComment a) (hscan : scan a = .ok ts)
    (hb : '\n' ∉ b) : scan (a ++ b) = .ok ts := by
  obtain ⟨l, hfeed, hmode⟩ := endsInComment_iff.mp h
  have hts : l.done.reverse = ts := by
    rw [scan, hfeed] at hscan
    simpa [bind, Except.bind, finish, hmode, Mode.close] using hscan
  rw [scan, feed_append hfeed, feed_comment hmode hb, ← hts]
  simp [bind, Except.bind, finish, Mode.close]

/-- A text that begins with a line end, or is empty, keeps its tokens behind any text that has
tokens. -/
theorem scan_append_of_head? (h : scan a = .ok ts) (hb : ∀ c ∈ b.head?, c = '\n') :
    scan (a ++ b) =
      moved a.length (fun us => ts ++ us.map (Token.shift a.length)) (scan b) := by
  cases b with
  | nil =>
    rw [List.append_nil, h]
    exact congrArg Except.ok (List.append_nil ts).symm
  | cons c b =>
    cases hb c rfl
    have hempty : scan ('\n' :: b) = moved 1 (fun us => [] ++ us.map (Token.shift 1)) (scan b) :=
      scan_newline (a := []) rfl b
    rw [scan_newline h, hempty]
    cases scan b with
    | error e =>
      simp only [moved, LexError.shift]
      congr 2
      omega
    | ok us => simp [moved, Function.comp_def, Token.shift_shift, Nat.add_comm]

/-! ## Texts with a space between them -/

/-- If the first text does not end inside a comment, a space separates its tokens from those of the
second one. -/
theorem scan_space (hscan : scan a = .ok ts) (h : ¬ EndsInComment a) (b : List Char) :
    scan (a ++ ' ' :: b) =
      moved (a.length + 1) (fun us => ts ++ us.map (Token.shift (a.length + 1))) (scan b) := by
  obtain ⟨l, hfeed, hfinish⟩ := exists_of_bind hscan
  refine scan_separated hfeed (step_space hfinish fun hmode => ?_) b
  exact h (endsInComment_of_mode hfeed hmode)

/-- The tokens of texts that stand one after the other, with one character between them.  Each text
comes with its own tokens, and the first one begins at the given index. -/
def placed : Nat → List (String × List Token) → List Token
  | _, [] => []
  | i, (text, tokens) :: rest => tokens.map (Token.shift i) ++ placed (i + text.length + 1) rest

theorem placed_cons (i : Nat) (s : String × List Token) (rest : List (String × List Token)) :
    placed i (s :: rest) = s.2.map (Token.shift i) ++ placed (i + s.1.length + 1) rest := rfl

theorem map_shift_placed (k i : Nat) (sources : List (String × List Token)) :
    (placed i sources).map (Token.shift k) = placed (i + k) sources := by
  induction sources generalizing i with
  | nil => rfl
  | cons s rest ih =>
    have hindex : i + s.1.length + 1 + k = i + k + s.1.length + 1 := by omega
    simp [placed, ih, hindex, Token.shift_shift]

/-- The texts as one, with a space between them. -/
def joined (sources : List (String × List Token)) : List Char :=
  (" ".intercalate (sources.map Prod.fst)).toList

theorem joined_singleton (s : String × List Token) : joined [s] = s.1.toList := by
  simp [joined]

theorem joined_cons {rest : List (String × List Token)} (s : String × List Token)
    (hrest : rest ≠ []) : joined (s :: rest) = s.1.toList ++ ' ' :: joined rest := by
  have hne : rest.map Prod.fst ≠ [] := by simpa using hrest
  simp [joined, String.intercalate_cons_of_ne_nil hne]

theorem joined_append {before after : List (String × List Token)} (hbefore : before ≠ [])
    (hafter : after ≠ []) : joined (before ++ after) = joined before ++ ' ' :: joined after := by
  have hne : before.map Prod.fst ≠ [] := by simpa using hbefore
  have hne' : after.map Prod.fst ≠ [] := by simpa using hafter
  simp [joined, String.intercalate_append_of_ne_nil hne hne']

/-- **Texts that do not end inside a comment**, the last one apart, keep their tokens when they are
joined by spaces. -/
theorem scan_joined {sources : List (String × List Token)} (hne : sources ≠ [])
    (hscan : ∀ s ∈ sources, scan s.1.toList = .ok s.2)
    (hends : ∀ s ∈ sources.dropLast, ¬ EndsInComment s.1.toList) :
    scan (joined sources) = .ok (placed 0 sources) := by
  induction sources with
  | nil => exact absurd rfl hne
  | cons s rest ih =>
    obtain ⟨hs, hrest⟩ := List.forall_mem_cons.mp hscan
    cases rest with
    | nil => simpa [placed, joined_singleton] using hs
    | cons s' rest =>
      rw [List.dropLast_cons_cons] at hends
      obtain ⟨hends, hends'⟩ := List.forall_mem_cons.mp hends
      rw [joined_cons s (by simp), scan_space hs hends, ih (by simp) hrest hends', moved,
        map_shift_placed, placed_cons 0 s, Token.map_shift_zero, String.length_toList,
        Nat.add_assoc]

/-- If the last of several texts ends inside a comment, so do all together. -/
theorem endsInComment_joined {before : List (String × List Token)} {s : String × List Token}
    (hscan : ∀ s' ∈ before, scan s'.1.toList = .ok s'.2)
    (hends : ∀ s' ∈ before, ¬ EndsInComment s'.1.toList) (hs : EndsInComment s.1.toList) :
    EndsInComment (joined (before ++ [s])) := by
  obtain ⟨front, rest, ts, hfront, htext, hrest⟩ := hs
  -- up to the two slashes, the texts keep their tokens
  have hup : scan (joined (before ++ [(String.ofList front, ts)])) =
      .ok (placed 0 (before ++ [(String.ofList front, ts)])) := by
    refine scan_joined (by simp) (fun s' hs' => ?_) (by simpa using hends)
    rcases List.mem_append.mp hs' with hs' | hs'
    · exact hscan s' hs'
    · cases List.mem_singleton.mp hs'
      simpa using hfront
  refine ⟨_, rest, _, hup, ?_, hrest⟩
  cases before with
  | nil => simp [joined_singleton, htext]
  | cons s' before =>
    rw [joined_append (by simp) (by simp), joined_append (by simp) (by simp)]
    simp [joined_singleton, htext]

end Lexer

namespace Files

open Lexer (joined placed EndsInComment scan)

variable {files : Files} {paths : List String} {sources : List (String × List Token)}

/-- The paths name source files.  Each file comes with its text, and with the tokens that the text
has by itself, without the end mark. -/
def Lists (files : Files) : List String → List (String × List Token) → Prop :=
  List.Forall₂ fun path s =>
    files.text path = .ok s.1 ∧ tokenize s.1 = .ok (s.2 ++ [.endAt s.1.length])

theorem load_of_lists (h : files.Lists paths sources) :
    files.load paths = .ok (" ".intercalate (sources.map Prod.fst)) := by
  have htexts : files.texts paths = .ok (sources.map Prod.fst) := by
    induction h with
    | nil => rfl
    | cons hfirst _ ih =>
      rw [texts, hfirst.1, ih]
      rfl
  rw [load, htexts]
  rfl

theorem scan_of_lists (h : files.Lists paths sources) :
    ∀ s ∈ sources, scan s.1.toList = .ok s.2 := by
  induction h with
  | nil => simp
  | cons hfirst _ ih =>
    refine List.forall_mem_cons.mpr ⟨?_, ih⟩
    obtain ⟨ts, hscan, heq⟩ := Lexer.exists_of_bind hfirst.2
    rw [hscan]
    simpa using heq

/-- **Files are read in listing order.**  If no file but the last one ends inside a comment, the
files are loaded, and the tokens are those of the files, one after the other. -/
theorem tokens_in_listing_order (hne : paths ≠ []) (h : files.Lists paths sources)
    (hends : ∀ s ∈ sources.dropLast, ¬ EndsInComment s.1.toList) :
    ∃ source, files.load paths = .ok source ∧
      tokenize source = .ok (placed 0 sources ++ [.endAt source.length]) := by
  have hsources : sources ≠ [] := by
    rintro rfl
    cases h
    exact hne rfl
  refine ⟨_, load_of_lists h, ?_⟩
  rw [tokenize, ← joined, Lexer.scan_joined hsources (scan_of_lists h) hends]
  rfl

/-- **What a comment at the end of a file hides.**  The files behind it are hidden up to the first
line end in them, and are read from there. -/
theorem comment_hides_line {before after : List (String × List Token)}
    {s : String × List Token} {behind : List Char}
    (h : files.Lists paths (before ++ s :: after))
    (hbefore : ∀ s' ∈ before, ¬ EndsInComment s'.1.toList) (hs : EndsInComment s.1.toList)
    (hbehind : joined (before ++ s :: after) = joined (before ++ [s]) ++ behind) :
    ∃ source, files.load paths = .ok source ∧ scan source.toList =
      let k := (joined (before ++ [s]) ++ behind.takeWhile (· ≠ '\n')).length
      Lexer.moved k (fun us => placed 0 (before ++ [s]) ++ us.map (Token.shift k))
        (scan (behind.dropWhile (· ≠ '\n'))) := by
  have hscan := scan_of_lists h
  have hupTo : scan (joined (before ++ [s])) = .ok (placed 0 (before ++ [s])) := by
    refine Lexer.scan_joined (by simp) (fun s' hs' => hscan s' ?_) (by simpa using hbefore)
    rcases List.mem_append.mp hs' with hs' | hs'
    · exact List.mem_append_left _ hs'
    · cases List.mem_singleton.mp hs'
      simp
  have hends : EndsInComment (joined (before ++ [s])) :=
    Lexer.endsInComment_joined (fun s' hs' => hscan s' (List.mem_append_left _ hs')) hbefore hs
  have hline : '\n' ∉ behind.takeWhile (· ≠ '\n') := by
    intro hmem
    simpa using List.all_eq_true.mp List.all_takeWhile _ hmem
  have hhead : ∀ c ∈ (behind.dropWhile (· ≠ '\n')).head?, c = '\n' := by
    intro c hc
    have hfirst := List.head?_dropWhile_not (· ≠ '\n') behind
    rw [Option.mem_def.mp hc] at hfirst
    simpa using hfirst
  refine ⟨_, load_of_lists h, ?_⟩
  have hsplit : (" ".intercalate ((before ++ s :: after).map Prod.fst)).toList =
      joined (before ++ [s]) ++ behind.takeWhile (· ≠ '\n') ++ behind.dropWhile (· ≠ '\n') := by
    rw [List.append_assoc, List.takeWhile_append_dropWhile]
    exact hbehind
  rw [hsplit]
  exact Lexer.scan_append_of_head? (Lexer.scan_append_of_endsInComment hends hupTo hline) hhead

/-! ## Two files -/

theorem text_eq_ok {path text : String} (hsource : files.isSource path = true)
    (hread : (files.read? path).bind String.fromUTF8? = some text) :
    files.text path = .ok text := by
  rw [Files.text, if_pos hsource, hread]

/-- The tokens of a definition of a name with one letter. -/
def definition (name : String) : List Token :=
  [⟨.keyword .letWord, ⟨0, 3⟩⟩, ⟨.identifier name, ⟨4, 5⟩⟩, ⟨.symbol .assign, ⟨6, 7⟩⟩,
    ⟨.keyword .trueWord, ⟨8, 12⟩⟩, ⟨.symbol .semicolon, ⟨12, 13⟩⟩]

/-- A directory with two source files, the second of which is a definition. -/
def pair (first : String) : Files :=
  ((FileTree.empty.add "a.pesl" (.file first.toUTF8)).add "b.pesl"
    (.file "let y = true;".toUTF8)).files

/-- The two files, if the first one has the tokens of a definition, too. -/
def pairSources (first : String) : List (String × List Token) :=
  [(first, definition "x"), ("let y = true;", definition "y")]

/-- A comment that a line end closes hides nothing of the second file. -/
theorem tokens_in_listing_order_closed :
    (pair "let x = true; // first\n").Lists ["a.pesl", "b.pesl"]
        (pairSources "let x = true; // first\n") ∧
      (∀ s ∈ (pairSources "let x = true; // first\n").dropLast, ¬ EndsInComment s.1.toList) ∧
      ∃ source, (pair "let x = true; // first\n").load ["a.pesl", "b.pesl"] = .ok source ∧
        tokenize source =
          .ok (placed 0 (pairSources "let x = true; // first\n") ++ [.endAt source.length]) := by
  have hlists : (pair "let x = true; // first\n").Lists ["a.pesl", "b.pesl"]
      (pairSources "let x = true; // first\n") :=
    .cons ⟨text_eq_ok (by decide +kernel) (by decide +kernel), rfl⟩
      (.cons ⟨text_eq_ok (by decide +kernel) (by decide +kernel), rfl⟩ .nil)
  have hends : ∀ s ∈ (pairSources "let x = true; // first\n").dropLast,
      ¬ EndsInComment s.1.toList :=
    List.forall_mem_singleton.mpr (by decide)
  exact ⟨hlists, hends, tokens_in_listing_order (by simp) hlists hends⟩

/-- **A comment at the end of a file hides the next file**, although both files have tokens by
themselves. -/
theorem comment_hides_next_file :
    (pair "let x = true; // first").Lists ["a.pesl", "b.pesl"]
        (pairSources "let x = true; // first") ∧
      ∃ source, (pair "let x = true; // first").load ["a.pesl", "b.pesl"] = .ok source ∧
        tokenize source = .ok (definition "x" ++ [.endAt source.length]) ∧
        tokenize source ≠
          .ok (placed 0 (pairSources "let x = true; // first") ++ [.endAt source.length]) := by
  have hlists : (pair "let x = true; // first").Lists ["a.pesl", "b.pesl"]
      (pairSources "let x = true; // first") :=
    .cons ⟨text_eq_ok (by decide +kernel) (by decide +kernel), rfl⟩
      (.cons ⟨text_eq_ok (by decide +kernel) (by decide +kernel), rfl⟩ .nil)
  have hends : EndsInComment "let x = true; // first".toList := by decide
  have hbehind : joined (pairSources "let x = true; // first") =
      joined [("let x = true; // first", definition "x")] ++ " let y = true;".toList := by
    decide +kernel
  obtain ⟨source, hload, hscan⟩ :=
    @comment_hides_line _ _ [] _ _ _ hlists (by simp) hends hbehind
  have hrest : " let y = true;".toList.dropWhile (· ≠ '\n') = [] := by decide
  have htokens : tokenize source = .ok (definition "x" ++ [.endAt source.length]) := by
    rw [tokenize, hscan, hrest]
    rfl
  refine ⟨hlists, source, hload, htokens, ?_⟩
  rw [htokens]
  simp [pairSources, placed, definition]

end Files

end Script
