import Script.Proofs.Grammar.Layout
import Script.Proofs.Grammar.Soundness

/-!
# Whole programs

A stream can be read to its end before anything is run.  What comes out is a program: the statements
in front of the first failure of the parser, and that failure.

Every statement takes at least one token, so the reading of a stream that ends with an end mark
comes to an end.  The bound is the stream itself, and no further one is needed.

## Main definitions

* `Program`: statements, and the failure after them.
* `TokenStream.program`: what the parser makes of the rest of a stream.
* `readProgram`: what the parser makes of a source text.

## Main results

* `TokenStream.Alike.program`: streams that read alike hold the same program, up to spans.
-/

namespace Script

/-- The statements of a source, and the failure of the parser that ends them, if there is one. -/
structure Program where
  statements : List (Stmt Span)
  failure : Option ParseError

/-- The statements without their spans, as they are run. -/
def Program.code (p : Program) : List (Stmt Unit) := p.statements.map Stmt.erase

/-- Two programs are the same but for spans: they have the same statements, and fail in the same
way or not at all. -/
inductive Program.Alike : Program → Program → Prop
  | complete {as bs} (hcode : as.map Stmt.erase = bs.map Stmt.erase) : Alike ⟨as, none⟩ ⟨bs, none⟩
  | failed {as bs e f} (hcode : as.map Stmt.erase = bs.map Stmt.erase)
      (hfailure : ParseError.Alike e f) : Alike ⟨as, some e⟩ ⟨bs, some f⟩

namespace TokenStream

variable {s s' t : TokenStream} {stmt : Stmt Span} {e : ParseError}

/-- A statement takes at least one token. -/
theorem remaining_of_parseNext (hs : s.Closed) (h : s.parseNext = (.ok stmt, s')) :
    s'.remaining < s.remaining := by
  obtain ⟨ts, hpass, hderives⟩ := Grammar.derives_of_parseNext hs h
  have hlength := congrArg List.length hpass.rest_eq
  have hpos : 0 < ts.length := List.length_pos_iff.mpr (hderives.ne_nil rfl)
  simp only [rest, List.length_append, List.length_cons] at hlength
  unfold remaining
  omega

theorem closed_of_parseNext (hs : s.Closed) (h : s.parseNext = (.ok stmt, s')) : s'.Closed := by
  obtain ⟨ts, hpass, -⟩ := Grammar.derives_of_parseNext hs h
  exact hpass.closed hs

/-- **The program in the rest of a stream.** -/
def program (s : TokenStream) (hs : s.Closed) : Program :=
  if s.hasRemaining then
    match hparse : s.parseNext with
    | (.error e, _) => ⟨[], some e⟩
    | (.ok stmt, s') =>
      have : s'.remaining < s.remaining := remaining_of_parseNext hs hparse
      let rest := s'.program (closed_of_parseNext hs hparse)
      ⟨stmt :: rest.statements, rest.failure⟩
  else ⟨[], none⟩
termination_by s.remaining

theorem program_of_end (hs : s.Closed) (hend : s.hasRemaining = false) :
    s.program hs = ⟨[], none⟩ := by
  unfold program
  simp [hend]

theorem program_of_error (hs : s.Closed) (hmore : s.hasRemaining = true)
    (h : s.parseNext = (.error e, s')) : s.program hs = ⟨[], some e⟩ := by
  unfold program
  rw [if_pos hmore]
  split
  · next heq =>
    obtain ⟨he, -⟩ := Prod.mk.inj (heq.symm.trans h)
    cases he
    rfl
  · next heq => cases heq.symm.trans h

theorem program_of_ok (hs : s.Closed) (hmore : s.hasRemaining = true)
    (h : s.parseNext = (.ok stmt, s')) :
    s.program hs =
      ⟨stmt :: (s'.program (closed_of_parseNext hs h)).statements,
        (s'.program (closed_of_parseNext hs h)).failure⟩ := by
  conv => lhs; unfold program
  rw [if_pos hmore]
  split
  · next heq => cases heq.symm.trans h
  · next heq =>
    obtain ⟨hstmt, rfl⟩ := Prod.mk.inj (heq.symm.trans h)
    cases hstmt
    rfl

/-- **Streams that read alike hold the same program**, up to spans. -/
theorem Alike.program (h : s.Alike t) (hs : s.Closed) (ht : t.Closed) :
    (s.program hs).Alike (t.program ht) := by
  induction s, hs using program.induct generalizing t with
  | case1 s hs hmore e s' he =>
    have hmore' : t.hasRemaining = true := h.hasRemaining.symm.trans hmore
    rcases h.parseNext with ⟨a, b, _, _, ha, -⟩ | ⟨e', f, _, _, he', hf, hef, -⟩
    · cases he.symm.trans ha
    · rw [program_of_error hs hmore he', program_of_error ht hmore' hf]
      exact .failed rfl hef
  | case2 s hs hmore a s' ha _ ih =>
    have hmore' : t.hasRemaining = true := h.hasRemaining.symm.trans hmore
    rcases h.parseNext with ⟨a', b, _, t', ha', hb, hab, hrest⟩ | ⟨e, f, _, _, he, -⟩
    · obtain ⟨heq, rfl⟩ := Prod.mk.inj (ha.symm.trans ha')
      cases heq
      have hprogram := ih hrest (closed_of_parseNext ht hb)
      rw [program_of_ok hs hmore ha, program_of_ok ht hmore' hb]
      generalize s'.program (closed_of_parseNext hs ha) = p at hprogram ⊢
      generalize t'.program (closed_of_parseNext ht hb) = q at hprogram ⊢
      cases hprogram with
      | complete hcode => exact .complete (by simp [hab, hcode])
      | failed hcode hfailure => exact .failed (by simp [hab, hcode]) hfailure
    · cases ha.symm.trans he
  | case3 s hs hmore =>
    rw [Bool.not_eq_true] at hmore
    have hmore' : t.hasRemaining = false := h.hasRemaining.symm.trans hmore
    rw [program_of_end hs hmore, program_of_end ht hmore']
    exact .complete rfl

end TokenStream

/-- The program of a source text, unless the text has no tokens. -/
def readProgram (source : String) : Except LexError Program :=
  match h : TokenStream.ofSource source with
  | .error e => .error e
  | .ok tokens => .ok (tokens.program (TokenStream.ofSource_closed h))

theorem readProgram_of_error {source : String} {e : LexError}
    (h : TokenStream.ofSource source = .error e) : readProgram source = .error e := by
  unfold readProgram
  split
  · next heq => cases heq.symm.trans h; rfl
  · next heq => cases heq.symm.trans h

theorem readProgram_of_ok {source : String} {tokens : TokenStream}
    (h : TokenStream.ofSource source = .ok tokens) :
    readProgram source = .ok (tokens.program (TokenStream.ofSource_closed h)) := by
  unfold readProgram
  split
  · next heq => cases heq.symm.trans h
  · next heq => cases heq.symm.trans h; rfl

end Script
