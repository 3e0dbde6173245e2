import Script.Proofs.Grammar.Completeness
import Script.Proofs.Printing.Reading

/-!
# What is printed is read back

The text of a statement is read as the tokens of that statement, and they are parsed as the
statement itself, up to spans, with nothing left over.
-/

namespace Script

open Grammar

section Trees

variable {α : Type} (numeral : α → Float → String)

mutual

/-- The lexemes of an expression denote it in every place that it binds tightly enough for. -/
theorem Expr.readsAt : (e : Expr α) → e.Printable numeral →
    ReadsAt e.binding (e.lexemes numeral) e
  | .number a x, h => readsAt_single fun t _ ht => ⟨.number t.span x, .number ht h, rfl⟩
  | .text _ s, _ => readsAt_single fun t _ ht => ⟨.text t.span s, .text ht, rfl⟩
  | .boolean _ true, _ => readsAt_single fun t _ ht => ⟨.boolean t.span true, .trueWord ht, rfl⟩
  | .boolean _ false, _ =>
    readsAt_single fun t _ ht => ⟨.boolean t.span false, .falseWord ht, rfl⟩
  | .undefined _, _ => readsAt_single fun t _ ht => ⟨.undefined t.span, .undefined ht, rfl⟩
  | .var _ name, _ => readsAt_single fun t _ ht => ⟨.var t.span name, .var ht, rfl⟩
  | .binary _ _ left right, h => readsAt_binary (left.readsAt h.1) (right.readsAt h.2)
  | .unary _ _ operand, h => readsAt_unary (operand.readsAt h)
  | .assign _ target value, h => readsAt_assign (target.reads h.1) (value.readsAt h.2)
  | .call _ callee args, h =>
    readsAt_call (callee.readsAt h.1) (Expr.readsItems .rightParen rfl (by simp) args h.2)
  | .array _ items, h => readsAt_array (Expr.readsItems .rightBracket rfl (by simp) items h)
  | .map _ entries, h => readsAt_map (Expr.readsEntries entries h)
  | .index _ container key, h => by
    intro ts next hts _
    obtain ⟨span, e', key', hderives, herase, heraseKey⟩ :=
      reads_index (container.readsAt h.1) (key.readsAt h.2) next hts
    refine ⟨.index span e' key', hderives, ?_⟩
    simp only [Expr.erase, Expr.mapAnn] at herase heraseKey ⊢
    rw [herase, heraseKey]
  | .field _ container name, h => by
    intro ts next hts _
    obtain ⟨span, e', hderives, herase⟩ := reads_field (container.readsAt h.1) next hts
    refine ⟨.field span e' name, hderives, ?_⟩
    simp only [Expr.erase, Expr.mapAnn] at herase ⊢
    rw [herase]
  | .lambda _ _ _ body, h => readsAt_lambda (Stmt.readsBody body h.2.2)

theorem Expr.readsItems (close : Symbol) (hclose : isCloser close = true)
    (hcomma : close ≠ .comma) :
    (es : List (Expr α)) → Expr.AllPrintable numeral es →
      ReadsItems close (Expr.itemLexemes numeral es) es
  | [], _ => by
    intro ts next hts hnext
    rw [Expr.itemLexemes, List.map_eq_nil_iff] at hts
    subst hts
    exact ⟨[], .noItems hnext, rfl⟩
  | [e], h => readsItems_one hclose hcomma (e.readsAt h.1)
  | e :: e₁ :: es, h =>
    readsItems_cons (e.readsAt h.1) (Expr.readsItems close hclose hcomma (e₁ :: es) h.2)

theorem Expr.readsEntries : (es : List (String × Expr α)) → Expr.EntriesPrintable numeral es →
    ReadsEntries (Expr.entryLexemes numeral es) es
  | [], _ => by
    intro ts next hts hnext
    rw [Expr.entryLexemes, List.map_eq_nil_iff] at hts
    subst hts
    exact ⟨[], .noEntries hnext, rfl⟩
  | [(_, e)], h => readsEntries_one (fun _ => key?_of_quoted) (e.readsAt h.1)
  | (_, e) :: entry :: es, h =>
    readsEntries_cons (fun _ => key?_of_quoted) (e.readsAt h.1)
      (Expr.readsEntries (entry :: es) h.2)

theorem Target.reads : (target : Target α) → target.Printable numeral →
    ReadsTarget (target.lexemes numeral) target
  | .var _ name, _ => by
    intro ts next hts
    obtain ⟨t, rfl, ht⟩ := List.map_eq_singleton_iff.mp hts
    exact ⟨.var t.span name, .var t.span name, .notApplied (.var ht), rfl, rfl⟩
  | .index _ container key, h => by
    intro ts next hts
    obtain ⟨span, e', key', hderives, herase, heraseKey⟩ :=
      reads_index (container.readsAt h.1) (key.readsAt h.2) next hts
    refine ⟨.index span e' key', .index span e' key', hderives, rfl, ?_⟩
    simp only [Expr.erase] at herase heraseKey
    simp only [Target.mapAnn, herase, heraseKey]
  | .field _ container name, h => by
    intro ts next hts
    obtain ⟨span, e', hderives, herase⟩ := reads_field (container.readsAt h.1) next hts
    refine ⟨.field span e' name, .field span e' name, hderives, rfl, ?_⟩
    simp only [Expr.erase] at herase
    simp only [Target.mapAnn, herase]

/-- The lexemes of a statement denote it. -/
theorem Stmt.readsForm : (s : Stmt α) → s.Printable numeral → ReadsForm (s.formLexemes numeral) s
  | .letVar _ _ none, _ => readsForm_letVar
  | .letVar _ _ (some e), h => readsForm_letInit (e.readsAt h.2)
  | .function _ _ _ body, h => readsForm_function (Stmt.readsBody body h.2.2)
  | .expr _ e, h => readsForm_expr (e.readsAt h)
  | .block _ body, h => readsForm_block (Stmt.readsBody body h)
  | .ifElse _ condition yes none, h =>
    readsForm_ifThen (condition.readsAt h.1) (Stmt.readsBody yes h.2)
  | .ifElse _ condition yes (some no), h =>
    readsForm_ifElse (condition.readsAt h.1) (Stmt.readsBody yes h.2.1) (Stmt.readsBody no h.2.2)
  | .whileLoop _ condition body, h =>
    readsForm_whileLoop (condition.readsAt h.1) (Stmt.readsBody body h.2)
  | .forEach _ _ items body, h =>
    readsForm_forEach (items.readsAt h.2.1) (Stmt.readsBody body h.2.2)
  | .tryCatch _ body _ handler, h =>
    readsForm_tryCatch (Stmt.readsBody body h.1) (Stmt.readsBody handler h.2.2)
  | .throw _ e, h => readsForm_throw (e.readsAt h)
  | .ret _ none, _ =>
    readsForm_word (fun _ _ hword hmark => .ret hword (.inl hmark)) fun _ => rfl
  | .ret _ (some e), h => readsForm_retValue (e.readsAt h)
  | .brk _, _ => readsForm_word (fun _ _ hword _ => .brk hword) fun _ => rfl
  | .cont _, _ => readsForm_word (fun _ _ hword _ => .cont hword) fun _ => rfl

theorem Stmt.readsBody : (body : List (Stmt α)) → Stmt.AllPrintable numeral body →
    ReadsBody (Stmt.bodyLexemes numeral body) body
  | [], _ => .nil
  | s :: body, h => .cons (s.readsForm h.1) (Stmt.readsBody body h.2)

end

/-! ### Every lexeme can be written -/

/-- All of the lexemes can be read back. -/
def AllWritable (ls : List Lexeme) : Prop := ∀ l ∈ ls, l.Writable

@[simp] theorem allWritable_nil : AllWritable [] := by
  simp [AllWritable]

@[simp] theorem allWritable_cons (l : Lexeme) (ls : List Lexeme) :
    AllWritable (l :: ls) ↔ l.Writable ∧ AllWritable ls := by
  simp [AllWritable]

@[simp] theorem allWritable_append (ls ms : List Lexeme) :
    AllWritable (ls ++ ms) ↔ AllWritable ls ∧ AllWritable ms := by
  simp [AllWritable, or_imp, forall_and]

@[simp] theorem allWritable_enclose (b : Bool) (ls : List Lexeme) :
    AllWritable (enclose b ls) ↔ AllWritable ls := by
  unfold enclose
  split <;> simp [Lexeme.Writable]

@[simp] theorem allWritable_braced (ls : List Lexeme) :
    AllWritable (braced ls) ↔ AllWritable ls := by
  simp [braced, Lexeme.Writable]

theorem allWritable_nameLexemes {names : List String} (h : names.all isName = true) :
    AllWritable (nameLexemes names) := by
  induction names with
  | nil => exact allWritable_nil
  | cons name names ih =>
    rw [List.all_cons, Bool.and_eq_true] at h
    cases names with
    | nil => simpa [nameLexemes, Lexeme.Writable] using h.1
    | cons other names => simpa [nameLexemes, Lexeme.Writable] using ⟨h.1, ih h.2⟩

theorem allWritable_codeLexemes {params : List String} {ls : List Lexeme}
    (h : params.all isName = true) (hls : AllWritable ls) :
    AllWritable (codeLexemes params ls) := by
  simp [codeLexemes, Lexeme.Writable, allWritable_nameLexemes h, hls]

mutual

theorem Expr.allWritable : (e : Expr α) → e.Printable numeral → AllWritable (e.lexemes numeral)
  | .number _ _, h => by simp_all [Expr.lexemes, Expr.Printable, Lexeme.Writable]
  | .text _ _, _ | .boolean _ _, _ | .undefined _, _ => by simp [Expr.lexemes, Lexeme.Writable]
  | .var _ name, h => by
    have hname : isName name = true := h
    simpa [Expr.lexemes, Lexeme.Writable] using hname
  | .binary _ _ left right, h => by
    simp [Expr.lexemes, Lexeme.Writable, left.allWritable h.1, right.allWritable h.2]
  | .unary _ _ operand, h => by simp [Expr.lexemes, Lexeme.Writable, operand.allWritable h]
  | .assign _ target value, h => by
    simp [Expr.lexemes, Lexeme.Writable, target.allWritable h.1, value.allWritable h.2]
  | .call _ callee args, h => by
    simp [Expr.lexemes, Lexeme.Writable, callee.allWritable h.1, Expr.items_allWritable args h.2]
  | .array _ items, h => by
    simp [Expr.lexemes, Lexeme.Writable, Expr.items_allWritable items h]
  | .map _ entries, h => by simp [Expr.lexemes, Expr.entries_allWritable entries h]
  | .index _ container key, h => by
    simp [Expr.lexemes, Lexeme.Writable, container.allWritable h.1, key.allWritable h.2]
  | .field _ container name, h => by
    have hname : isName name = true := h.2
    simp [Expr.lexemes, Lexeme.Writable, container.allWritable h.1, hname]
  | .lambda _ label _ body, h => by
    have hcode := allWritable_codeLexemes h.2.1 (Stmt.body_allWritable body h.2.2)
    have hlabel := h.1
    cases label <;> simp_all [Expr.lexemes, Lexeme.Writable]

theorem Expr.items_allWritable : (es : List (Expr α)) → Expr.AllPrintable numeral es →
    AllWritable (Expr.itemLexemes numeral es)
  | [], _ => allWritable_nil
  | [e], h => e.allWritable h.1
  | e :: e₁ :: es, h => by
    simp [Expr.itemLexemes, Lexeme.Writable, e.allWritable h.1,
      Expr.items_allWritable (e₁ :: es) h.2]

theorem Expr.entries_allWritable : (es : List (String × Expr α)) →
    Expr.EntriesPrintable numeral es → AllWritable (Expr.entryLexemes numeral es)
  | [], _ => allWritable_nil
  | [(_, e)], h => by simp [Expr.entryLexemes, Lexeme.Writable, e.allWritable h.1]
  | (_, e) :: entry :: es, h => by
    simp [Expr.entryLexemes, Lexeme.Writable, e.allWritable h.1,
      Expr.entries_allWritable (entry :: es) h.2]

theorem Target.allWritable : (target : Target α) → target.Printable numeral →
    AllWritable (target.lexemes numeral)
  | .var _ name, h => by
    have hname : isName name = true := h
    simpa [Target.lexemes, Lexeme.Writable] using hname
  | .index _ container key, h => by
    simp [Target.lexemes, Lexeme.Writable, container.allWritable h.1, key.allWritable h.2]
  | .field _ container name, h => by
    have hname : isName name = true := h.2
    simp [Target.lexemes, Lexeme.Writable, container.allWritable h.1, hname]

theorem Stmt.allWritable : (s : Stmt α) → s.Printable numeral → AllWritable (s.formLexemes numeral)
  | .letVar _ name none, h => by
    have hname : isName name = true := h
    simpa [Stmt.formLexemes, Lexeme.Writable] using hname
  | .letVar _ _ (some e), h => by
    simpa [Stmt.formLexemes, Lexeme.Writable, e.allWritable h.2] using h.1
  | .function _ name _ body, h => by
    have hcode := allWritable_codeLexemes h.2.1 (Stmt.body_allWritable body h.2.2)
    simpa [Stmt.formLexemes, Lexeme.Writable, hcode] using h.1
  | .expr _ e, h => by simp [Stmt.formLexemes, e.allWritable h]
  | .block _ body, h => by simp [Stmt.formLexemes, Stmt.body_allWritable body h]
  | .ifElse _ condition yes none, h => by
    simp [Stmt.formLexemes, Lexeme.Writable, condition.allWritable h.1,
      Stmt.body_allWritable yes h.2]
  | .ifElse _ condition yes (some no), h => by
    simp [Stmt.formLexemes, Lexeme.Writable, condition.allWritable h.1,
      Stmt.body_allWritable yes h.2.1, Stmt.body_allWritable no h.2.2]
  | .whileLoop _ condition body, h => by
    simp [Stmt.formLexemes, Lexeme.Writable, condition.allWritable h.1,
      Stmt.body_allWritable body h.2]
  | .forEach _ _ items body, h => by
    simpa [Stmt.formLexemes, Lexeme.Writable, items.allWritable h.2.1,
      Stmt.body_allWritable body h.2.2] using h.1
  | .tryCatch _ body _ handler, h => by
    simpa [Stmt.formLexemes, Lexeme.Writable, Stmt.body_allWritable body h.1,
      Stmt.body_allWritable handler h.2.2] using h.2.1
  | .throw _ e, h => by simp [Stmt.formLexemes, Lexeme.Writable, e.allWritable h]
  | .ret _ none, _ => by simp [Stmt.formLexemes, Lexeme.Writable]
  | .ret _ (some e), h => by simp [Stmt.formLexemes, Lexeme.Writable, e.allWritable h]
  | .brk _, _ | .cont _, _ => by simp [Stmt.formLexemes, Lexeme.Writable]

theorem Stmt.body_allWritable : (body : List (Stmt α)) → Stmt.AllPrintable numeral body →
    AllWritable (Stmt.bodyLexemes numeral body)
  | [], _ => allWritable_nil
  | s :: body, h => by
    simp [Stmt.bodyLexemes, Lexeme.Writable, s.allWritable h.1, Stmt.body_allWritable body h.2]

end

/-- **Printing and parsing are inverse.**  The text of a statement has tokens, and parsing them once
yields the statement, up to spans, and leaves nothing but the end mark. -/
theorem Stmt.parseNext_print (s : Stmt α) (h : s.Printable numeral) :
    ∃ (stream stream' : TokenStream) (s' : Stmt Span),
      tokenize (s.print numeral) = .ok stream.toList ∧
      TokenStream.ofSource (s.print numeral) = .ok stream ∧
      stream.parseNext = (.ok s', stream') ∧ s'.erase = s.erase ∧
      stream'.rest = [.endAt (s.print numeral).length] := by
  have hwritable : AllWritable (s.lexemes numeral) := by
    simp [Stmt.lexemes, Lexeme.Writable, s.allWritable numeral h]
  have hscan : Lexer.scan (s.print numeral).toList = .ok (layout 0 (s.lexemes numeral)) := by
    rw [Stmt.print, String.toList_ofList, Lexer.scan_spaced hwritable]
  have hpass := TokenStream.ofTokens_passes (layout 0 (s.lexemes numeral))
    (.endAt (s.print numeral).length)
  obtain ⟨s', hderives, herase⟩ := (s.readsForm numeral h).statement
    (.endAt (s.print numeral).length) (map_lexeme_layout 0 (s.lexemes numeral))
  refine ⟨_, _, s', ?_, ?_, parseNext_of_derives hpass hderives, herase, rfl⟩
  · rw [tokenize, hscan, TokenStream.toList_ofTokens]
    rfl
  · rw [TokenStream.ofSource, hscan]
    rfl

end Trees

/-- A choice with numbers whose annotations are their numerals. -/
def sampleChoice : Stmt String :=
  .ifElse "" (.assign "" (.var "" "x") (.binary "" .mul
      (.binary "" .add (.number "1" (Float.ofScientific 1 false 0))
        (.number "2.50" (Float.ofScientific 250 true 2)))
      (.unary "" .negate (.var "" "y"))))
    [.expr "" (.call "" (.lambda "" none ["n"] [.ret "" none]) [.text "" "a\x22b"])] (some [])

/-- The sum needs parentheses, and so does the statement that begins with a function. -/
theorem Stmt.parseNext_print_sampleChoice :
    sampleChoice.print (fun numeral _ => numeral) =
      "if ( x = ( 1 + 2.50 ) * - y ) \x7b ( function ( n ) \x7b return ; \x7d " ++
        "( \x22a\\\x22b\x22 ) ) ; \x7d else \x7b \x7d ;" ∧
    sampleChoice.Printable (fun numeral _ => numeral) ∧
    ∃ (stream stream' : TokenStream) (s' : Stmt Span),
      tokenize (sampleChoice.print fun numeral _ => numeral) = .ok stream.toList ∧
      TokenStream.ofSource (sampleChoice.print fun numeral _ => numeral) = .ok stream ∧
      stream.parseNext = (.ok s', stream') ∧ s'.erase = sampleChoice.erase ∧
      stream'.rest = [.endAt (sampleChoice.print fun numeral _ => numeral).length] := by
  have hprintable : sampleChoice.Printable (fun numeral _ => numeral) :=
    ⟨⟨rfl, ⟨rfl, rfl⟩, rfl⟩,
      ⟨⟨⟨rfl, rfl, trivial, trivial⟩, trivial, trivial⟩, trivial⟩, trivial⟩
  exact ⟨rfl, hprintable, Stmt.parseNext_print _ _ hprintable⟩

end Script
