import Script.Proofs.Grammar.Program
import Script.Proofs.Tree.Names

/-!
# Names come from identifiers

Every name in the tree of a phrase is one of the identifiers among the tokens of the phrase.  So a
name that a source does not spell occurs in none of its statements.

## Main definitions

* `Grammar.Phrase.Mentions`: a name occurs in the tree of a phrase.

## Main results

* `Grammar.Derives.spells`: the tokens of a phrase spell the names in its tree.
* `TokenStream.spells_program`: the tokens of a stream spell the names in its program.
-/

namespace Script

/-- One of the tokens is the given name. -/
def Spelled (name : String) (ts : List Token) : Prop := ∃ t ∈ ts, t.lexeme = .identifier name

instance (name : String) (ts : List Token) : Decidable (Spelled name ts) :=
  inferInstanceAs (Decidable (∃ t ∈ ts, t.lexeme = .identifier name))

section Spelled

variable {name : String} {t : Token} {ts us : List Token}

@[simp, grind =] theorem spelled_append :
    Spelled name (ts ++ us) ↔ Spelled name ts ∨ Spelled name us := by
  simp [Spelled, or_and_right, exists_or]

@[simp, grind =] theorem spelled_cons :
    Spelled name (t :: ts) ↔ t.lexeme = .identifier name ∨ Spelled name ts := by
  simp [Spelled]

end Spelled

namespace Grammar

/-- A name occurs in the tree of a phrase. -/
def Phrase.Mentions (name : String) : Phrase → Prop
  | expression e | operation _ e | applied e | primary e => name ∈ e.names
  | items _ es => name ∈ Expr.namesList es
  | entries es => name ∈ Expr.namesEntries es
  | params names => name ∈ names
  | code names body => name ∈ names ∨ name ∈ Stmt.namesList body
  | statements body | block body | branch body => name ∈ Stmt.namesList body
  | form build => ∃ span, name ∈ (build span).names
  | statement s => name ∈ s.names

/-- **The tokens of a phrase spell the names in its tree.** -/
theorem Derives.spells {name : String} {phrase : Phrase} {ts : List Token} {next : Token}
    (h : Derives phrase ts next) (hname : phrase.Mentions name) : Spelled name ts := by
  induction h with
  -- a place holds the names of the expression before it, and parentheses hold none
  | assign _ htarget _ _ ihplace ihvalue =>
    have htargetNames := Expr.names_of_toTarget? htarget
    grind [Phrase.Mentions, Expr.names]
  | parens _ _ _ ih => grind [Phrase.Mentions, Expr.names_setAnn]
  -- neither does the span of a statement
  | bare _ _ ih => exact ih ⟨_, hname⟩
  | ended _ _ ih => exact spelled_append.mpr (.inl (ih ⟨_, hname⟩))
  | _ =>
    simp only [Phrase.Mentions, Expr.names, Expr.namesList, Expr.namesEntries, Stmt.names,
      Stmt.namesList] at *
    grind

end Grammar

/-- **The tokens of a stream spell the names in its program.** -/
theorem TokenStream.spells_program {name : String} {s : TokenStream} (hs : s.Closed)
    {stmt : Stmt Unit} (hstmt : stmt ∈ (s.program hs).code) (hname : name ∈ stmt.names) :
    Spelled name s.rest := by
  induction s, hs using TokenStream.program.induct with
  | case1 s hs hmore e s' he =>
    rw [program_of_error hs hmore he] at hstmt
    cases hstmt
  | case2 s hs hmore first s' hfirst _ ih =>
    obtain ⟨ts, hpass, hderives⟩ := Grammar.derives_of_parseNext hs hfirst
    rw [program_of_ok hs hmore hfirst, Program.code, List.map_cons] at hstmt
    rw [hpass.rest_eq, spelled_append]
    rcases List.mem_cons.mp hstmt with rfl | hlater
    · rw [Stmt.names_erase] at hname
      exact .inl (hderives.spells hname)
    · exact .inr (ih hlater)
  | case3 s hs hmore =>
    rw [Bool.not_eq_true] at hmore
    rw [program_of_end hs hmore] at hstmt
    cases hstmt

end Script
