import Script.Proofs.Eval.Heredity
import Script.Proofs.Grammar.Spans
import Script.Proofs.Run.TwoPhase

/-!
# The code that is run was read from the source

A pass over a source runs the statements that are read from it, and the bodies of the functions that
these make.  So every expression that it evaluates and every statement that it runs is a node of a
tree that the parser has made, without the spans, and the tokens of the node are a stretch of those
of the source.

Two kinds of nodes have a check of the parser behind them.  An assignment was read from an
expression that `Expr.toTarget?` accepts, with an assignment mark after it, and a function
declaration from the word for a function, with a name after it.

## Main definitions

* `Node.Read`: the nodes of the trees that are read from a source.
* `Grammar.Assigned`, `Grammar.Declared`: what an assignment and a declaration are read from.
* `Heredity.read`: the trees that are such nodes, without the spans.
* `Pass.Visits`: the visits that take place in a pass.

## Main results

* `Node.Read.assigned`, `Node.Read.declared`: the tokens of an assignment and of a declaration.
* `Pass.Visits.governs`: what parts inherit from the program holds of every visit of a pass.
* `Pass.Visits.assigned`, `Pass.Visits.declared`: the places and the names that a pass comes to.
-/

namespace Script

/-! ## The nodes of a source -/

section Nodes

variable {source : String} {node : Node}

/-- The node stands in a statement that is read somewhere in the source. -/
def Node.Read (source : String) (node : Node) : Prop :=
  ∃ (s s' : TokenStream) (stmt : Stmt Span), s.Along source ∧ s.parseNext = (.ok stmt, s') ∧
    Node.Within (.stmt stmt) node

/-- The expression was read from the source, and has lost its spans. -/
def Expr.ReadFrom (source : String) (e : Expr Unit) : Prop :=
  ∃ c : Expr Span, (Node.expr c).Read source ∧ c.erase = e

/-- The statement was read from the source, and has lost its spans. -/
def Stmt.ReadFrom (source : String) (s : Stmt Unit) : Prop :=
  ∃ c : Stmt Span, (Node.stmt c).Read source ∧ c.erase = s

namespace Node.Read

theorem child {node' : Node} (h : node.Read source) (hmem : node' ∈ node.children) :
    node'.Read source := by
  obtain ⟨s, s', stmt, hs, hparse, hwithin⟩ := h
  exact ⟨s, s', stmt, hs, hparse, hwithin.child hmem⟩

/-- The tokens of the node are a stretch of those of the source. -/
theorem located (h : node.Read source) :
    ∃ pre mid post, Lexer.scan source.toList = .ok (pre ++ (mid ++ post)) ∧
      Grammar.Located node mid := by
  obtain ⟨s, s', stmt, hs, hparse, hwithin⟩ := h
  obtain ⟨pre, mid, post, hscan, hlocated, -⟩ := Grammar.exists_located hs hparse hwithin
  exact ⟨pre, mid, post, hscan, hlocated⟩

theorem exprs (h : node.Read source) (es : List (Expr Span))
    (hes : ∀ e ∈ es, .expr e ∈ node.children) : ∀ e ∈ es.map Expr.erase, e.ReadFrom source := by
  intro e he
  obtain ⟨c, hc, rfl⟩ := List.mem_map.mp he
  exact ⟨c, h.child (hes c hc), rfl⟩

theorem stmts (h : node.Read source) (body : List (Stmt Span))
    (hbody : ∀ s ∈ body, .stmt s ∈ node.children) :
    ∀ s ∈ body.map Stmt.erase, s.ReadFrom source := by
  intro s hs
  obtain ⟨c, hc, rfl⟩ := List.mem_map.mp hs
  exact ⟨c, h.child (hbody c hc), rfl⟩

/-! ### Parts -/

theorem parts_target {target : Target Span} (h : (Node.expr target.toExpr).Read source) :
    ∀ e ∈ (target.mapAnn fun _ => ()).parts, e.ReadFrom source := by
  cases target with
  | var => exact List.forall_mem_nil _
  | field a container name => exact h.exprs [container] (by simp [Target.toExpr, children])
  | index a container key => exact h.exprs [container, key] (by simp [Target.toExpr, children])

theorem calleePart {e : Expr Span} (h : (Node.expr e).Read source) :
    e.erase.calleePart.ReadFrom source := by
  cases e with
  | field a container name => exact ⟨container, h.child (.head _), rfl⟩
  | _ => exact ⟨_, h, rfl⟩

/-- What an expression evaluates was read below it. -/
theorem parts_expr {e : Expr Span} (h : (Node.expr e).Read source) :
    ∀ e' ∈ e.erase.parts, e'.ReadFrom source := by
  cases e with
  | number | text | boolean | undefined | var | lambda => exact List.forall_mem_nil _
  | binary a op left right => exact h.exprs [left, right] (by simp [children])
  | unary a op operand => exact h.exprs [operand] (by simp [children])
  | index a container key => exact h.exprs [container, key] (by simp [children])
  | field a container name => exact h.exprs [container] (by simp [children])
  | assign a target value =>
    intro e' he'
    rcases List.mem_cons.mp he' with rfl | htarget
    · exact ⟨value, h.child (.tail _ (.head _)), rfl⟩
    · exact (h.child (.head _)).parts_target e' htarget
  | call a callee args =>
    rw [Expr.erase_call]
    intro e' he'
    rcases List.mem_cons.mp he' with rfl | harg
    · exact (h.child (.head _)).calleePart
    · exact h.exprs args (fun e he => .tail _ (List.mem_map_of_mem he)) e' harg
  | array a items =>
    rw [Expr.erase_array]
    exact h.exprs items fun e he => List.mem_map_of_mem he
  | map a entries =>
    rw [Expr.erase_map]
    intro e' he'
    obtain ⟨entry', hentry', rfl⟩ := List.mem_map.mp he'
    obtain ⟨entry, hentry, rfl⟩ := List.mem_map.mp hentry'
    exact ⟨entry.2, h.child (List.mem_map_of_mem hentry), rfl⟩

/-- What a statement evaluates was read below it. -/
theorem parts_stmt {s : Stmt Span} (h : (Node.stmt s).Read source) :
    ∀ e ∈ s.erase.parts, e.ReadFrom source := by
  cases s with
  | letVar a name init =>
    cases init with
    | none => exact List.forall_mem_nil _
    | some e => exact h.exprs [e] (by simp [children])
  | ret a value =>
    cases value with
    | none => exact List.forall_mem_nil _
    | some e => exact h.exprs [e] (by simp [children])
  | ifElse a condition yes no =>
    rw [Stmt.erase_ifElse]
    exact h.exprs [condition] (by simp [children])
  | expr a e | throw a e | whileLoop a e | forEach a name e =>
    exact h.exprs [e] (by simp [children])
  | function | block | tryCatch | brk | cont => exact List.forall_mem_nil _

/-- What a statement runs was read below it. -/
theorem bodies_stmt {s : Stmt Span} (h : (Node.stmt s).Read source) :
    ∀ s' ∈ s.erase.bodies, s'.ReadFrom source := by
  cases s with
  | block a body =>
    rw [Stmt.erase_block]
    exact h.stmts body (by simp [children])
  | ifElse a condition yes no =>
    have hbodies : (Stmt.ifElse a condition yes no).erase.bodies =
        (yes ++ no.getD []).map Stmt.erase := by
      rw [Stmt.erase_ifElse]
      cases no <;> simp [Stmt.bodies]
    rw [hbodies]
    refine h.stmts _ fun s hs => ?_
    simpa [children] using hs
  | whileLoop a condition body =>
    rw [Stmt.erase_whileLoop]
    exact h.stmts body (by simp [children])
  | forEach a name items body =>
    rw [Stmt.erase_forEach]
    exact h.stmts body (by simp [children])
  | tryCatch a body name handler =>
    rw [Stmt.erase_tryCatch]
    show ∀ s' ∈ body.map Stmt.erase ++ handler.map Stmt.erase, _
    rw [← List.map_append]
    refine h.stmts _ fun s hs => ?_
    simpa [children] using hs
  | letVar a name init => cases init <;> exact List.forall_mem_nil _
  | ret a value => cases value <;> exact List.forall_mem_nil _
  | function | expr | throw | brk | cont => exact List.forall_mem_nil _

/-- The code of a function that an expression makes was read below it. -/
theorem codes_expr {e : Expr Span} (h : (Node.expr e).Read source) :
    ∀ body ∈ e.erase.codes, ∀ s ∈ body, s.ReadFrom source := by
  cases e with
  | lambda a name params body =>
    rw [Expr.erase_lambda]
    intro code hcode
    obtain rfl : code = body.map Stmt.erase := List.mem_singleton.mp hcode
    exact h.stmts body (by simp [children])
  | _ => exact List.forall_mem_nil _

/-- The code of a function that a statement declares was read below it. -/
theorem codes_stmt {s : Stmt Span} (h : (Node.stmt s).Read source) :
    ∀ body ∈ s.erase.codes, ∀ s' ∈ body, s'.ReadFrom source := by
  cases s with
  | function a name params body =>
    rw [Stmt.erase_function]
    intro code hcode
    obtain rfl : code = body.map Stmt.erase := List.mem_singleton.mp hcode
    exact h.stmts body (by simp [children])
  | letVar a name init => cases init <;> exact List.forall_mem_nil _
  | ret a value => cases value <;> exact List.forall_mem_nil _
  | ifElse a condition yes no => cases no <;> exact List.forall_mem_nil _
  | _ => exact List.forall_mem_nil _

end Node.Read

end Nodes

/-! ## Assignments and declarations -/

namespace Grammar

section Tokens

variable {phrase : Phrase} {ts : List Token} {next : Token}

/-- Among the tokens of the source, an expression that is accepted as the place stands in front of
an assignment mark. -/
def Assigned (source : String) (target : Target Unit) : Prop :=
  ∃ pre ts mark post place, Lexer.scan source.toList = .ok (pre ++ (ts ++ mark :: post)) ∧
    Derives (.operation 0 place) ts mark ∧ mark.lexeme = .symbol .assign ∧
    place.erase.toTarget? = some target

/-- Among the tokens of the source, the name stands behind the word for a function. -/
def Declared (source name : String) : Prop :=
  ∃ pre word label post, Lexer.scan source.toList = .ok (pre ++ word :: label :: post) ∧
    word.lexeme = .keyword .function ∧ label.lexeme = .identifier name

theorem exists_of_setAnn_eq {a b : Span} {e value : Expr Span} {target : Target Span}
    (h : e.setAnn b = .assign a target value) : ∃ a', e = .assign a' target value := by
  cases e <;> cases h
  exact ⟨_, rfl⟩

/-- An assignment is read from a place, a mark and a value, and there may be parentheses around
these. -/
theorem Derives.exists_place {a : Span} {target : Target Span} {value : Expr Span}
    (h : Derives phrase ts next) (he : phrase.expr? = some (.assign a target value)) :
    ∃ pre us mark post place, ts = pre ++ (us ++ mark :: post) ∧
      Derives (.operation 0 place) us mark ∧ mark.lexeme = .symbol .assign ∧
      place.toTarget? = some target := by
  induction h generalizing a with
  | @assign place _ _ us post mark _ hplace htarget hmark =>
    cases he
    exact ⟨[], us, mark, post, place, rfl, hplace, hmark, htarget⟩
  | noAssign _ _ _ ih | tighter _ _ _ ih | noUnary _ _ ih | notApplied _ ih => exact ih he
  | @parens _ _ left right _ _ _ _ ih =>
    obtain ⟨a', rfl⟩ := exists_of_setAnn_eq (Option.some.inj he)
    obtain ⟨pre, us, mark, post, place, rfl, hplace⟩ := ih rfl
    exact ⟨left :: pre, us, mark, post ++ [right], place, by simp, hplace⟩
  | _ => cases he

/-- A declaration is read from the word for a function, a name and the rest. -/
theorem Derives.exists_label {build : Span → Stmt Span} {a span : Span} {name : String}
    {params : List String} {body : List (Stmt Span)} (h : Derives (.form build) ts next)
    (hbuild : build span = .function a name params body) :
    ∃ word label post, ts = word :: label :: post ∧ word.lexeme = .keyword .function ∧
      label.lexeme = .identifier name := by
  cases h with
  | function hword hlabel =>
    cases hbuild
    exact ⟨_, _, _, rfl, hword, hlabel⟩
  | _ => cases hbuild

/-- A statement is a form, and a semicolon may follow. -/
theorem Derives.exists_form {s : Stmt Span} (h : Derives (.statement s) ts next) :
    ∃ build us mark post, Derives (.form build) us mark ∧ ts = us ++ post ∧
      build (cover us) = s := by
  cases h with
  | bare h => exact ⟨_, _, _, [], h, by simp, rfl⟩
  | ended h => exact ⟨_, _, _, _, h, rfl, rfl⟩

end Tokens

end Grammar

section Checked

variable {source : String}

/-- **An assignment has a place behind it that the parser has accepted.** -/
theorem Node.Read.assigned {a : Span} {target : Target Span} {value : Expr Span}
    (h : (Node.expr (.assign a target value)).Read source) :
    Grammar.Assigned source (target.mapAnn fun _ => ()) := by
  obtain ⟨pre, mid, post, hscan, hlocated⟩ := h.located
  obtain ⟨pre', ts, mark, post', place, rfl, hplace, hmark, htarget⟩ :=
    (hlocated.derives (.endAt 0) rfl).exists_place rfl
  refine ⟨pre ++ pre', ts, mark, post' ++ post, place, by rw [hscan]; simp, hplace, hmark, ?_⟩
  rw [Expr.erase, Expr.toTarget?_mapAnn, htarget, Option.map_some]

/-- **A declaration has a name behind it that the parser has found.** -/
theorem Node.Read.declared {a : Span} {name : String} {params : List String}
    {body : List (Stmt Span)} (h : (Node.stmt (.function a name params body)).Read source) :
    Grammar.Declared source name := by
  obtain ⟨pre, mid, post, hscan, hlocated⟩ := h.located
  obtain ⟨build, us, mark, post', hform, rfl, hbuild⟩ :=
    (hlocated.derives (.endAt 0) rfl).exists_form
  obtain ⟨word, label, rest, rfl, hword, hlabel⟩ := hform.exists_label hbuild
  exact ⟨pre, word, label, rest ++ (post' ++ post), by rw [hscan]; simp, hword, hlabel⟩

/-- The name is an identifier in the source. -/
def Lexer.MakesName (source name : String) : Prop :=
  ∃ t, Makes source t ∧ t.lexeme = .identifier name

/-- A name that is declared is an identifier in the source. -/
theorem Grammar.Declared.makesName {name : String} (h : Grammar.Declared source name) :
    Lexer.MakesName source name := by
  obtain ⟨pre, word, label, post, hscan, -, hlabel⟩ := h
  exact ⟨label, Lexer.makes_of_scan hscan (by simp), hlabel⟩

end Checked

/-! ## What parts inherit from a program -/

open Eval Outcome

/-- The trees that were read from the source. -/
def Heredity.read (source : String) : Heredity where
  expr := Expr.ReadFrom source
  stmt := Stmt.ReadFrom source
  code body := ∀ s ∈ body, s.ReadFrom source
  expr_of_expr := by
    rintro _ e' ⟨c, hc, rfl⟩ he'
    exact hc.parts_expr e' he'
  code_of_expr := by
    rintro _ body ⟨c, hc, rfl⟩ hbody
    exact hc.codes_expr body hbody
  expr_of_stmt := by
    rintro _ e ⟨c, hc, rfl⟩ he
    exact hc.parts_stmt e he
  stmt_of_stmt := by
    rintro _ s' ⟨c, hc, rfl⟩ hs'
    exact hc.bodies_stmt s' hs'
  code_of_stmt := by
    rintro _ body ⟨c, hc, rfl⟩ hbody
    exact hc.codes_stmt body hbody
  stmt_of_code hbody hs := hbody _ hs

/-- The statements of the source are of the sort, as far as it can be parsed. -/
def Heredity.Covers (H : Heredity) (source : String) : Prop :=
  ∀ program, readProgram source = .ok program → ∀ s ∈ program.code, H.stmt s

/-- The program in the rest of a stream was read from the source. -/
theorem TokenStream.Along.readFrom_program {source : String} {s : TokenStream}
    (hs : s.Closed) (halong : s.Along source) : ∀ stmt ∈ (s.program hs).code,
    stmt.ReadFrom source := by
  induction s, hs using TokenStream.program.induct with
  | case1 s hs hmore e s' he =>
    rw [program_of_error hs hmore he]
    exact List.forall_mem_nil _
  | case2 s hs hmore first s' hfirst _ ih =>
    rw [program_of_ok hs hmore hfirst, Program.code, List.map_cons]
    intro stmt hstmt
    rcases List.mem_cons.mp hstmt with rfl | hlater
    · exact ⟨first, ⟨s, s', first, halong, hfirst, .root⟩, rfl⟩
    · exact ih (halong.parseNext hfirst) stmt hlater
  | case3 s hs hmore =>
    rw [Bool.not_eq_true] at hmore
    rw [program_of_end hs hmore]
    exact List.forall_mem_nil _

/-- **The statements of a source were read from it.** -/
theorem Heredity.covers_read (source : String) : (Heredity.read source).Covers source := by
  intro program hprogram
  cases hfirst : TokenStream.ofSource source with
  | error e =>
    rw [readProgram_of_error hfirst] at hprogram
    cases hprogram
  | ok first =>
    rw [readProgram_of_ok hfirst] at hprogram
    cases hprogram
    exact TokenStream.Along.readFrom_program _ ⟨first, [], hfirst, .refl first⟩

/-- A new namespace has native functions only. -/
theorem Namespace.holds_prelude (G : Guarantee) : G.Holds Namespace.prelude.store := by
  intro f hf
  have hfunctions : Namespace.prelude.store.functions = #[.native .println, .native .exit] := rfl
  rw [hfunctions] at hf
  rcases (by simpa using hf : f = .native .println ∨ f = .native .exit) with rfl | rfl
  · exact G.good_native .println
  · exact G.good_native .exit

namespace Pass

variable {ω : Type} {p : Pass ω} {source : String} {now now' : Progress ω} {w : Visit}
variable {H : Heredity} {code : List (Stmt Unit)}

/-- A statement makes no function objects of another sort, however it ends. -/
theorem holds_after {s : Stmt Unit} (hs : H.stmt s) (hnow : H.guarantee.Holds now.ns.store) :
    H.guarantee.Holds (after (s.evaluate p.fuel) (machine now)).store :=
  (H.keeps_evaluate p.fuel 0 hs (machine now) rfl hnow).1.holds

theorem holds_of_ok {s : Stmt Unit} {value : Value} {m : Machine} (hs : H.stmt s)
    (hnow : H.guarantee.Holds now.ns.store)
    (hrun : s.evaluate p.fuel (machine now) = .ok value m) :
    H.guarantee.Holds (resume now m).ns.store := by
  have hafter := holds_after (p := p) hs hnow
  rw [after_of_ok hrun] at hafter
  exact hafter

theorem Completes.holds (h : p.Completes code now now') (hcode : ∀ s ∈ code, H.stmt s)
    (hnow : H.guarantee.Holds now.ns.store) : H.guarantee.Holds now'.ns.store :=
  h.induct_ns (I := fun ns => H.guarantee.Holds ns.store)
    (fun s hs _ _ _ hnow hrun => holds_of_ok (hcode s hs) hnow hrun) hnow

/-- The visit takes place while the pass runs one of the statements of the source. -/
def Visits (p : Pass ω) (source : String) (now : Progress ω) (w : Visit) : Prop :=
  ∃ before s now', p.Starts source now before s now' ∧
    Visit.Reaches ⟨p.fuel, .stmt s, machine now'⟩ w

/-- **What parts inherit from a program holds of every visit of a pass** over the program. -/
theorem Visits.governs (h : p.Visits source now w) (hsource : H.Covers source)
    (hnow : H.guarantee.Holds now.ns.store) : H.Governs w := by
  obtain ⟨before, s, now', ⟨program, rest, hprogram, hcode, hcompletes⟩, hreaches⟩ := h
  have hall : ∀ s' ∈ before ++ s :: rest, H.stmt s' := hcode ▸ hsource program hprogram
  have hstore := hcompletes.holds (fun s' hs' => hall s' (List.mem_append_left _ hs')) hnow
  have hgoverns : H.Governs ⟨p.fuel, .stmt s, machine now'⟩ := ⟨hall s (by simp), hstore⟩
  exact hgoverns.reaches hreaches

/-! ## What a pass comes to -/

section Checked

variable {n : Nat} {m : Machine}

/-- A place is assigned to while the assignment is evaluated that it belongs to. -/
theorem Visits.exists_assign {value : Value} {target : Target Unit}
    (h : p.Visits source now ⟨n, .place value target, m⟩) :
    ∃ a e m', p.Visits source now ⟨n + 1, .expr (.assign a target e), m'⟩ := by
  obtain ⟨before, s, now', hstarts, hreaches⟩ := h
  cases hreaches with
  | tail hbefore hstep =>
    rcases hstep with henters | htries
    · cases henters with
      | place => exact ⟨_, _, _, before, s, now', hstarts, hbefore⟩
    · cases htries

/-- **Every place that a pass assigns to was accepted by the parser.** -/
theorem Visits.assigned {value : Value} {target : Target Unit}
    (h : p.Visits source now ⟨n, .place value target, m⟩)
    (hnow : (Heredity.read source).guarantee.Holds now.ns.store) :
    Grammar.Assigned source target := by
  obtain ⟨a, e, m', hassign⟩ := h.exists_assign
  obtain ⟨c, hread, hc⟩ := (hassign.governs (Heredity.covers_read source) hnow).task
  cases c with
  | assign =>
    cases hc
    exact hread.assigned
  | _ => cases hc

/-- **Every name of a function that a pass declares was found by the parser.** -/
theorem Visits.declared {a : Unit} {name : String} {params : List String}
    {body : List (Stmt Unit)} (h : p.Visits source now ⟨n, .stmt (.function a name params body), m⟩)
    (hnow : (Heredity.read source).guarantee.Holds now.ns.store) :
    Grammar.Declared source name := by
  obtain ⟨c, hread, hc⟩ := (h.governs (Heredity.covers_read source) hnow).task
  cases c with
  | function =>
    cases hc
    exact hread.declared
  | letVar _ _ init => cases init <;> cases hc
  | ret _ value => cases value <;> cases hc
  | ifElse _ _ _ no => cases no <;> cases hc
  | _ => cases hc

end Checked

end Pass

end Script
