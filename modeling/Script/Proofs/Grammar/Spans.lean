import Script.Proofs.Grammar.Moving
import Script.Proofs.Grammar.Range
import Script.Proofs.Token.Cutting

/-!
# The spans of a tree

Every node of a tree that was read from a text says which stretch of the text it is.  This is exact:
the stretch alone reads back as the node, at its own place.  A statement is read as it is, without
the semicolon behind it, and an expression is read as the value of a declaration.

A node is derived by a stretch of the tokens, and the nodes below it by stretches of these, one
behind the other.  This is all that the spans of a tree depend on, and it is shown by induction over
the grammar.

## Main definitions

* `Node`, `Node.children`, `Node.Within`: the nodes of a tree.
* `Node.ReadsBack`: the text at the span of a node reads back as the node.
* `Node.Exact`: what is said about the span of each node.
* `Grammar.Spread`: nodes that are derived by stretches of tokens, one behind the other.

## Main results

* `Grammar.Derives.spread`: the nodes of a phrase are spread over its tokens.
* `Grammar.exists_located`: every node of a statement that is read is a stretch of the tokens.
* `Node.exact_of_parseNext`: every span in a tree that was read from a text is exact.
-/

namespace Script

/-! ## The nodes of a tree -/

/-- The place as the expression that it was read from. -/
def Target.toExpr {α : Type} : Target α → Expr α
  | .var a name => .var a name
  | .index a container key => .index a container key
  | .field a container name => .field a container name

theorem Target.toExpr_of_toTarget? {α : Type} {place : Expr α} {target : Target α}
    (h : place.toTarget? = some target) : target.toExpr = place := by
  cases place <;> cases h <;> rfl

/-- The characters of a text at a span. -/
def Span.text (span : Span) (source : String) : String := .ofList (span.slice source.toList)

/-- A statement or an expression at some depth of a tree. -/
inductive Node where
  | stmt (s : Stmt Span)
  | expr (e : Expr Span)

namespace Node

/-- Where the node was read. -/
def span : Node → Span
  | stmt s => s.ann
  | expr e => e.ann

/-- The nodes right below a node, in the order of the text. -/
def children : Node → List Node
  | expr (.number ..) | expr (.text ..) | expr (.boolean ..) | expr (.undefined ..)
  | expr (.var ..) => []
  | expr (.binary _ _ left right) => [expr left, expr right]
  | expr (.unary _ _ operand) => [expr operand]
  | expr (.assign _ target value) => [expr target.toExpr, expr value]
  | expr (.call _ callee args) => expr callee :: args.map expr
  | expr (.array _ items) => items.map expr
  | expr (.map _ entries) => entries.map fun entry => expr entry.2
  | expr (.index _ container key) => [expr container, expr key]
  | expr (.field _ container _) => [expr container]
  | expr (.lambda _ _ _ body) => body.map stmt
  | stmt (.letVar _ _ init) => init.toList.map expr
  | stmt (.function _ _ _ body) => body.map stmt
  | stmt (.expr _ value) => [expr value]
  | stmt (.block _ body) => body.map stmt
  | stmt (.ifElse _ condition yes no) => expr condition :: (yes.map stmt ++ (no.getD []).map stmt)
  | stmt (.whileLoop _ condition body) => expr condition :: body.map stmt
  | stmt (.forEach _ _ items body) => expr items :: body.map stmt
  | stmt (.tryCatch _ body _ handler) => body.map stmt ++ handler.map stmt
  | stmt (.throw _ value) => [expr value]
  | stmt (.ret _ value) => value.toList.map expr
  | stmt (.brk _) | stmt (.cont _) => []

/-- The node stands somewhere in the tree below `root`, or at its root. -/
inductive Within (root : Node) : Node → Prop where
  | root : Within root root
  | child {parent node : Node} (h : Within root parent) (hmem : node ∈ parent.children) :
      Within root node

/-- The text at the span of a node reads back as the node, and nothing of it is left.  The spans
that are read are those of the node once they are moved to its place; an expression is read behind
the eight characters that begin a declaration. -/
def ReadsBack (source : String) : Node → Prop
  | stmt s => ∃ first s₀ rest, TokenStream.ofSource (s.ann.text source) = .ok first ∧
      first.parseNext = (.ok s₀, rest) ∧ rest.hasRemaining = false ∧
      s₀.mapAnn (Span.shift s.ann.start) = s
  | expr e => ∃ first span e₀ rest,
      TokenStream.ofSource ("let v = " ++ e.ann.text source) = .ok first ∧
      first.parseNext = (.ok (.letVar span "v" (some e₀)), rest) ∧ rest.hasRemaining = false ∧
      e₀.mapAnn (Span.shift e.ann.start) = e.mapAnn (Span.shift 8)

/-- The span of a node is exact, and the nodes below it have their places in it. -/
structure Exact (source : String) (node : Node) : Prop where
  solid : node.span.start < node.span.stop
  within : node.span.stop ≤ source.length
  readsBack : node.ReadsBack source
  inside : ∀ child ∈ node.children,
    node.span.start ≤ child.span.start ∧ child.span.stop ≤ node.span.stop
  apart : node.children.Pairwise fun a b => a.span.stop ≤ b.span.start

end Node

namespace Grammar

open Lexer (InOrder)

/-! ## Stretches of tokens -/

/-- The span begins with the first of the tokens and ends with the last. -/
structure Edges (ts : List Token) (span : Span) : Prop where
  head : ts.head?.map (fun t => t.span.start) = some span.start
  last : ts.getLast?.map (fun t => t.span.stop) = some span.stop

namespace Edges

variable {ts us : List Token} {a b : Span}

theorem singleton (t : Token) : Edges [t] t.span := ⟨rfl, rfl⟩

/-- Two stretches with tokens between them. -/
theorem join (ha : Edges ts a) (hb : Edges us b) (mid : List Token) :
    Edges (ts ++ (mid ++ us)) (a.join b) := by
  obtain ⟨first, hfirst, hstart⟩ := Option.map_eq_some_iff.mp ha.head
  obtain ⟨last, hlast, hstop⟩ := Option.map_eq_some_iff.mp hb.last
  exact ⟨by simp [hfirst, hstart], by simp [hlast, hstop]⟩

theorem cover (hts : ts ≠ []) (horder : InOrder ts) : Edges ts (cover ts) := by
  obtain ⟨first, rest, rfl⟩ := List.exists_cons_of_ne_nil hts
  have hfirst : (first :: rest).head? = some first := rfl
  have hlast : (first :: rest).getLast? = some ((first :: rest).getLast hts) :=
    List.getLast?_eq_some_getLast hts
  have hmem := List.getLast_mem hts
  have hle := horder.start_le hfirst hmem
  have hsolid := horder.solid _ hmem
  refine ⟨?_, ?_⟩
  · simp [Grammar.cover, hlast]
  · simp only [Grammar.cover, hlast, hfirst, Option.map_some, Option.some.injEq]
    omega

/-- The tokens that the edges belong to. -/
theorem exists_ends (h : Edges ts a) : ∃ first last, ts.head? = some first ∧
    ts.getLast? = some last ∧ a = ⟨first.span.start, last.span.stop⟩ := by
  obtain ⟨first, hfirst, hstart⟩ := Option.map_eq_some_iff.mp h.head
  obtain ⟨last, hlast, hstop⟩ := Option.map_eq_some_iff.mp h.last
  exact ⟨first, last, hfirst, hlast, by rw [hstart, hstop]⟩

/-- A stretch of a stretch lies inside of it. -/
theorem inside {pre post : List Token} (h : Edges (pre ++ (ts ++ post)) a)
    (horder : InOrder (pre ++ (ts ++ post))) (hb : Edges ts b) :
    a.start ≤ b.start ∧ b.stop ≤ a.stop := by
  obtain ⟨first, last, hfirst, hlast, rfl⟩ := h.exists_ends
  obtain ⟨first', last', hfirst', hlast', rfl⟩ := hb.exists_ends
  have hmem : ∀ t ∈ ts, t ∈ pre ++ (ts ++ post) := fun t ht =>
    List.mem_append_right _ (List.mem_append_left _ ht)
  exact ⟨horder.start_le hfirst (hmem _ (List.mem_of_head? hfirst')),
    horder.stop_le_last hlast (hmem _ (List.mem_of_getLast? hlast'))⟩

/-- A stretch ends before a later one begins. -/
theorem apart {mid post : List Token} (horder : InOrder (ts ++ (mid ++ (us ++ post))))
    (ha : Edges ts a) (hb : Edges us b) : a.stop ≤ b.start := by
  obtain ⟨first, last, -, hlast, rfl⟩ := ha.exists_ends
  obtain ⟨first', last', hfirst', -, rfl⟩ := hb.exists_ends
  exact horder.stop_le (List.mem_of_getLast? hlast)
    (List.mem_append_right _ (List.mem_append_left _ (List.mem_of_head? hfirst')))

end Edges

/-- The phrase that a node is. -/
def phraseOf : Node → Phrase
  | .stmt s => .statement s
  | .expr e => .expression e

/-- The tokens are the node, at the end of a text as well as anywhere else. -/
structure Located (node : Node) (ts : List Token) : Prop where
  edges : Edges ts node.span
  derives : ∀ mark : Token, mark.isEnd = true → Derives (phraseOf node) ts mark

/-- **The nodes are derived by stretches of the tokens, one behind the other**, and so are all nodes
below them, by stretches of these. -/
inductive Spread : List Node → List Token → Prop where
  | nil {ts : List Token} : Spread [] ts
  | cons {node : Node} {nodes : List Node} {pre mid post : List Token} (hnode : Located node mid)
      (hchildren : Spread node.children mid) (hrest : Spread nodes post) :
      Spread (node :: nodes) (pre ++ (mid ++ post))

namespace Spread

variable {node : Node} {nodes others : List Node} {ts us : List Token}

theorem append_left (h : Spread nodes us) (ts : List Token) : Spread nodes (ts ++ us) := by
  cases h with
  | nil => exact .nil
  | cons hnode hchildren hrest =>
    rw [← List.append_assoc]
    exact .cons hnode hchildren hrest

theorem append (h : Spread nodes ts) (h' : Spread others us) :
    Spread (nodes ++ others) (ts ++ us) := by
  induction h with
  | nil => exact h'.append_left _
  | cons hnode hchildren _ _ ih =>
    rw [List.append_assoc, List.append_assoc, List.cons_append]
    exact .cons hnode hchildren ih

theorem append_right (h : Spread nodes ts) (us : List Token) : Spread nodes (ts ++ us) := by
  simpa using h.append (.nil : Spread [] us)

theorem cons_left (h : Spread nodes ts) (t : Token) : Spread nodes (t :: ts) := h.append_left [t]

/-- Tokens in brackets. -/
theorem enclosed (h : Spread nodes ts) (left right : Token) :
    Spread nodes (left :: (ts ++ [right])) := (h.append_right [right]).cons_left left

theorem single (hnode : Located node ts) (hchildren : Spread node.children ts) :
    Spread [node] ts := by
  have hcons : Spread [node] ([] ++ (ts ++ [])) := .cons hnode hchildren .nil
  simpa using hcons

/-- A member of nodes that are spread over tokens. -/
theorem exists_located (h : Spread nodes ts) (hmem : node ∈ nodes) :
    ∃ pre mid post, ts = pre ++ (mid ++ post) ∧ Located node mid ∧ Spread node.children mid := by
  induction h with
  | nil => cases hmem
  | @cons node' nodes pre mid post hnode hchildren _ _ ih =>
    rcases List.mem_cons.mp hmem with rfl | hmem
    · exact ⟨pre, mid, post, rfl, hnode, hchildren⟩
    · obtain ⟨pre', mid', post', rfl, hlocated, hbelow⟩ := ih hmem
      exact ⟨pre ++ (mid ++ pre'), mid', post', by simp, hlocated, hbelow⟩

theorem children (h : Spread [node] ts) : Spread node.children ts := by
  obtain ⟨pre, mid, post, rfl, -, hchildren⟩ := h.exists_located (.head _)
  exact (hchildren.append_right post).append_left pre

/-- Nodes that are spread over tokens follow each other. -/
theorem pairwise (h : Spread nodes ts) (horder : InOrder ts) :
    nodes.Pairwise fun a b => a.span.stop ≤ b.span.start := by
  induction h with
  | nil => exact .nil
  | @cons node nodes pre mid post hnode _ hrest _ ih =>
    refine .cons (fun other hmem => ?_) (ih horder.append_right.append_right)
    obtain ⟨pre', mid', post', rfl, hother, -⟩ := hrest.exists_located hmem
    exact Edges.apart horder.append_right hnode.edges hother.edges

end Spread

/-! ## Phrases -/

/-- The nodes that a phrase consists of. -/
def Phrase.nodes : Phrase → List Node
  | expression e | operation _ e | applied e | primary e => [.expr e]
  | items _ es => es.map .expr
  | entries es => es.map fun entry => .expr entry.2
  | params _ => []
  | code _ body | statements body | block body | branch body => body.map .stmt
  | form build => (Node.stmt (build ⟨0, 0⟩)).children
  | statement s => [.stmt s]

section Phrases

variable {phrase : Phrase} {ts us : List Token} {next mark : Token} {e : Expr Span}

theorem children_setAnn (a : Span) (e : Expr Span) :
    (Node.expr (e.setAnn a)).children = (Node.expr e).children := by
  cases e <;> rfl

theorem ann_setAnn (a : Span) (e : Expr Span) : (e.setAnn a).ann = a := by
  cases e <;> rfl

/-- **The span of an expression begins and ends with its tokens.** -/
theorem Derives.edges (h : Derives phrase ts next) (horder : InOrder ts)
    (he : phrase.expr? = some e) : Edges ts e.ann := by
  induction h generalizing e with
  | @assign _ _ _ _ _ mark _ _ _ _ _ ihplace ihvalue =>
    cases he
    exact (ihplace horder.append_left rfl).join (ihvalue horder.append_right.tail rfl) [mark]
  | @binary _ _ _ _ _ mark _ _ _ _ _ ihleft ihright =>
    cases he
    exact (ihleft horder.append_left rfl).join (ihright horder.append_right.tail rfl) [mark]
  | noAssign _ _ _ ih | tighter _ _ _ ih | noUnary _ _ ih | notApplied _ ih =>
    cases he
    exact ih horder rfl
  | @unary _ _ _ mark _ _ _ ih =>
    cases he
    exact (Edges.singleton mark).join (ih horder.tail rfl) []
  | @call _ _ _ us left right _ _ _ _ _ ih _ =>
    cases he
    exact (ih horder.append_left rfl).join (.singleton right) (left :: us)
  | @index _ _ _ us left right _ _ _ _ _ ih _ =>
    cases he
    exact (ih horder.append_left rfl).join (.singleton right) (left :: us)
  | @field _ _ dot member _ _ _ _ _ ih =>
    cases he
    exact (ih horder.append_left rfl).join (.singleton member) [dot]
  | @number _ _ t | @text _ t | @trueWord t | @falseWord t | @undefined t | @var _ t =>
    cases he
    exact .singleton t
  | @parens _ ts left right =>
    cases he
    rw [ann_setAnn]
    exact (Edges.singleton left).join (.singleton right) ts
  | @array _ ts left right | @map _ ts left right =>
    cases he
    exact (Edges.singleton left).join (.singleton right) ts
  | lambda | namedLambda =>
    cases he
    exact .cover (by simp) horder
  | _ => cases he

theorem Derives.spread_expr (h : Derives phrase ts next) (he : phrase.expr? = some e)
    (horder : InOrder ts) (hchildren : Spread (Node.expr e).children ts) : Spread [.expr e] ts :=
  .single ⟨h.edges horder he, fun _ hmark => h.expression_at_end hmark he⟩ hchildren

variable {build : Span → Stmt Span}

theorem Derives.ann_form (h : Derives (.form build) ts next) (span : Span) :
    (build span).ann = span := by
  cases h <;> rfl

theorem Derives.children_form (h : Derives (.form build) ts next) (span : Span) :
    (Node.stmt (build span)).children = (Phrase.form build).nodes := by
  cases h <;> rfl

theorem Derives.spread_form (h : Derives (.form build) ts next) (horder : InOrder ts)
    (hchildren : Spread (Phrase.form build).nodes ts) :
    Spread [.stmt (build (cover ts))] ts := by
  refine .single ⟨?_, fun mark hmark => ?_⟩ (h.children_form _ ▸ hchildren)
  · show Edges ts (build (cover ts)).ann
    rw [h.ann_form]
    exact .cover (h.ne_nil rfl) horder
  · exact .bare (h.at_end hmark rfl) (by simp [Token.isEnd_iff.mp hmark])

/-- **The nodes of a phrase are spread over its tokens.** -/
theorem Derives.spread (h : Derives phrase ts next) (horder : InOrder ts) :
    Spread phrase.nodes ts := by
  induction h with
  | @assign place value target ts us mark _ hplace htarget hmark hvalue ihplace ihvalue =>
    refine (Derives.assign hplace htarget hmark hvalue).spread_expr rfl horder ?_
    simp only [Node.children, Target.toExpr_of_toTarget? htarget]
    exact (ihplace horder.append_left).append ((ihvalue horder.append_right.tail).cons_left mark)
  | @binary _ _ _ ts us mark _ hleft hmark hright hop ihleft ihright =>
    refine (Derives.binary hleft hmark hright hop).spread_expr rfl horder ?_
    exact (ihleft horder.append_left).append ((ihright horder.append_right.tail).cons_left mark)
  | noAssign _ _ _ ih | tighter _ _ _ ih | noUnary _ _ ih | notApplied _ ih => exact ih horder
  | @unary _ _ _ mark _ hmark h ih =>
    exact (Derives.unary hmark h).spread_expr rfl horder ((ih horder.tail).cons_left mark)
  | @call _ _ _ _ left right next hf hleft hargs hright ihf ihargs =>
    refine Derives.spread_expr (.call hf hleft hargs hright : Derives _ _ next) rfl horder ?_
    exact (ihf horder.append_left).append
      ((ihargs horder.append_right.tail.append_left).enclosed left right)
  | @index _ _ _ _ left right next he hleft hkey hright ihe ihkey =>
    refine Derives.spread_expr (.index he hleft hkey hright : Derives _ _ next) rfl horder ?_
    exact (ihe horder.append_left).append
      ((ihkey horder.append_right.tail.append_left).enclosed left right)
  | @field _ _ _ _ next _ he hdot hmember ih =>
    exact Derives.spread_expr (.field he hdot hmember : Derives _ _ next) rfl horder
      ((ih horder.append_left).append_right _)
  | @number _ _ _ next ht hvalue =>
    exact Derives.spread_expr (.number ht hvalue : Derives _ _ next) rfl horder .nil
  | @text _ _ next ht =>
    exact Derives.spread_expr (.text ht : Derives _ _ next) rfl horder .nil
  | @trueWord _ next ht =>
    exact Derives.spread_expr (.trueWord ht : Derives _ _ next) rfl horder .nil
  | @falseWord _ next ht =>
    exact Derives.spread_expr (.falseWord ht : Derives _ _ next) rfl horder .nil
  | @undefined _ next ht =>
    exact Derives.spread_expr (.undefined ht : Derives _ _ next) rfl horder .nil
  | @var _ _ next ht =>
    exact Derives.spread_expr (.var ht : Derives _ _ next) rfl horder .nil
  | @parens _ _ left right next hleft h hright ih =>
    refine Derives.spread_expr (.parens hleft h hright : Derives _ _ next) rfl horder ?_
    rw [children_setAnn]
    exact (ih horder.tail.append_left).children.enclosed left right
  | @array _ _ left right next hleft h hright ih =>
    exact Derives.spread_expr (.array hleft h hright : Derives _ _ next) rfl horder
      ((ih horder.tail.append_left).enclosed left right)
  | @map _ _ left right next hleft h hright ih =>
    exact Derives.spread_expr (.map hleft h hright : Derives _ _ next) rfl horder
      ((ih horder.tail.append_left).enclosed left right)
  | @lambda _ _ _ word _ hword h ih =>
    exact (Derives.lambda hword h).spread_expr rfl horder ((ih horder.tail).cons_left word)
  | @namedLambda _ _ _ _ word label _ hword hlabel h ih =>
    exact (Derives.namedLambda hword hlabel h).spread_expr rfl horder
      (((ih horder.tail.tail).cons_left label).cons_left word)
  | noItems | noEntries | noParams | oneParam | moreParams | noStatements => exact .nil
  | oneItem _ _ ih => exact ih horder
  | @moreItems _ _ _ _ _ comma _ _ _ _ ih ihmore =>
    exact (ih horder.append_left).append ((ihmore horder.append_right.tail).cons_left comma)
  | @oneEntry _ _ _ key colon _ _ _ _ _ ih =>
    exact ((ih horder.tail.tail).cons_left colon).cons_left key
  | @moreEntries _ _ _ _ _ key colon comma _ _ _ _ _ _ ih ihmore =>
    have htail := horder.tail.tail
    have hboth := (ih htail.append_left).append ((ihmore htail.append_right.tail).cons_left comma)
    exact (hboth.cons_left colon).cons_left key
  | @code _ _ _ _ left right _ _ _ _ _ _ ihbody =>
    have hbody := ihbody horder.tail.append_right.tail
    exact ((hbody.cons_left right).append_left _).cons_left left
  | moreStatements _ _ ih ihmore =>
    exact (ih horder.append_left).append (ihmore horder.append_right)
  | @block _ _ left right _ _ _ _ ih => exact (ih horder.tail.append_left).enclosed left right
  | blockBranch _ ih | singleBranch _ _ ih => exact ih horder
  | bare h _ ih => exact h.spread_form horder (ih horder)
  | ended h _ ih =>
    exact (h.spread_form horder.append_left (ih horder.append_left)).append_right _
  | letVar | ret | brk | cont => exact .nil
  | @letInit _ _ _ word label mark _ _ _ _ _ ih =>
    exact (((ih horder.tail.tail.tail).cons_left mark).cons_left label).cons_left word
  | @function _ _ _ _ word label _ _ _ _ ih =>
    exact ((ih horder.tail.tail).cons_left label).cons_left word
  | @ifThen _ _ _ _ word left right _ _ _ _ _ _ _ ihtest ihyes =>
    have htail := horder.tail.tail
    have hboth := (ihtest htail.append_left).append
      ((ihyes htail.append_right.tail).cons_left right)
    simpa [Phrase.nodes, Node.children] using (hboth.cons_left left).cons_left word
  | @ifElse _ _ _ _ _ _ word left right other _ _ _ _ _ _ _ _ ihtest ihyes ihno =>
    have htail := horder.tail.tail
    have hafter := htail.append_right.tail
    have hbranches := (ihyes hafter.append_left).append
      ((ihno hafter.append_right.tail).cons_left other)
    have hall := (ihtest htail.append_left).append (hbranches.cons_left right)
    exact (hall.cons_left left).cons_left word
  | @whileLoop _ _ _ _ word left right _ _ _ _ _ _ ihtest ihbody =>
    have htail := horder.tail.tail
    have hboth := (ihtest htail.append_left).append
      ((ihbody htail.append_right.tail).cons_left right)
    exact (hboth.cons_left left).cons_left word
  | @forEach _ _ _ _ _ word left label within right _ _ _ _ _ _ _ _ ih ihbody =>
    have htail := horder.tail.tail.tail.tail
    have hboth := (ih htail.append_left).append
      ((ihbody htail.append_right.tail).cons_left right)
    exact (((hboth.cons_left within).cons_left label).cons_left left).cons_left word
  | @tryCatch _ _ _ _ _ word rescue left label right _ _ _ _ _ _ _ _ ihbody ihhandler =>
    have hafter := ihhandler horder.tail.append_right.tail.tail.tail.tail
    have hboth := (ihbody horder.tail.append_left).append
      ((((hafter.cons_left right).cons_left label).cons_left left).cons_left rescue)
    exact hboth.cons_left word
  | @throw _ _ word _ _ _ ih | @retValue _ _ word _ _ _ ih =>
    exact (ih horder.tail).cons_left word
  | blockForm _ ih | exprForm _ _ _ ih => exact ih horder

end Phrases

/-! ## Reading back -/

section ReadingBack

variable {source : String} {node : Node} {pre mid post us : List Token} {n : Nat}

/-- No phrase begins with a point. -/
theorem Located.first_ne_dot {first : Token} (h : Located node mid)
    (hfirst : mid.head? = some first) : first.lexeme ≠ .symbol .dot := by
  have hopens := (h.derives (.endAt 0) rfl).opens
  intro hdot
  cases node with
  | stmt s =>
    obtain ⟨t, rest, rfl, ht⟩ := Opening.first hopens
    cases hfirst
    rw [hdot] at ht
    cases ht
  | expr e =>
    obtain ⟨t, rest, rfl, ht⟩ := Opening.first hopens
    cases hfirst
    rw [hdot] at ht
    cases ht

/-- The text at the span of a node has the tokens of the node. -/
theorem Located.scan_slice (h : Located node mid)
    (hscan : Lexer.scan source.toList = .ok (pre ++ (mid ++ post))) :
    ∃ us, Lexer.scan (node.span.slice source.toList) = .ok us ∧
      mid = us.map (Token.shift node.span.start) := by
  obtain ⟨first, last, hfirst, hlast, hspan⟩ := h.edges.exists_ends
  rw [hspan]
  exact Lexer.scan_slice hscan hfirst hlast (h.first_ne_dot hfirst)

theorem parseNext_ofTokens {s : Stmt Span} (h : Derives (.statement s) us (.endAt n)) :
    (TokenStream.ofTokens us (.endAt n)).parseNext = (.ok s, ⟨us.reverse, .endAt n, []⟩) :=
  parseNext_of_derives (TokenStream.ofTokens_passes us _) h

/-- **A phrase is moved** from behind `a` characters to behind `b` characters. -/
theorem Derives.replace {phrase : Phrase} {a : Nat} (b : Nat)
    (h : Derives phrase (us.map (Token.shift a)) (.endAt (n + a))) :
    Derives (phrase.move fun i => i - a + b) (us.map (Token.shift b)) (.endAt (n + b)) := by
  have hplace : ∀ t : Token, (t.shift a).move (fun i => i - a + b) = t.shift b := by
    intro t
    simp [Token.move, Token.shift, Span.map, Span.shift]
  have htokens : (us.map (Token.shift a)).map (Token.move fun i => i - a + b) =
      us.map (Token.shift b) := by
    rw [List.map_map]
    exact List.map_congr_left fun t _ => hplace t
  have hend : (Token.endAt (n + a)).move (fun i => i - a + b) = .endAt (n + b) :=
    hplace (.endAt n)
  rw [← htokens, ← hend]
  refine h.move fun i j hle => ?_
  omega

/-- Texts that are put behind `a` and behind `b` characters are put behind all of these. -/
theorem shift_shift_comm (a b : Nat) (t : Token) : (t.shift a).shift b = (t.shift b).shift a := by
  simp only [Token.shift, Span.shift_shift, Nat.add_comm a b]

/-- The tokens of a text behind another one that leaves nothing open. -/
theorem ofSource_append {front text : String} {before : List Token}
    (hfront : Lexer.start.feed front.toList = .ok ⟨front.length, .gap, before⟩)
    (hscan : Lexer.scan text.toList = .ok us) :
    TokenStream.ofSource (front ++ text) = .ok (.ofTokens
      (before.reverse ++ us.map (Token.shift front.length))
      (.endAt (text.length + front.length))) := by
  have hboth : Lexer.scan (front ++ text).toList =
      .ok (before.reverse ++ us.map (Token.shift front.length)) := by
    rw [Lexer.scan, String.toList_append, Lexer.feed_append hfront, Lexer.scan_shift, hscan]
    rfl
  rw [TokenStream.ofSource, hboth, String.length_append, Nat.add_comm]
  rfl

/-- An expression that has been put behind `b` characters, and is moved further by `a`. -/
theorem expression_eq_of_shift {a b : Nat} {e e' : Expr Span}
    (h : Derives (.expression e) (us.map (Token.shift a)) (.endAt (n + a)))
    (h' : Derives (.expression e') (us.map (Token.shift b)) (.endAt (n + b))) :
    e'.mapAnn (Span.shift a) = e.mapAnn (Span.shift b) := by
  have hmoved : Derives (.expression (e.mapAnn (Span.shift b)))
      ((us.map (Token.shift a)).map (Token.shift b)) (((Token.endAt n).shift a).shift b) :=
    h.move (g := fun i => i + b) fun _ _ hle => Nat.add_le_add_right hle b
  have hmoved' : Derives (.expression (e'.mapAnn (Span.shift a)))
      ((us.map (Token.shift b)).map (Token.shift a)) (((Token.endAt n).shift b).shift a) :=
    h'.move (g := fun i => i + a) fun _ _ hle => Nat.add_le_add_right hle a
  have htokens : (us.map (Token.shift b)).map (Token.shift a) =
      (us.map (Token.shift a)).map (Token.shift b) := by
    simp only [List.map_map]
    exact List.map_congr_left fun t _ => shift_shift_comm b a t
  rw [htokens, shift_shift_comm b a] at hmoved'
  exact hmoved'.expression_unique hmoved

/-- **The text at the span of a node reads back as the node.** -/
theorem Located.readsBack (h : Located node mid)
    (hscan : Lexer.scan source.toList = .ok (pre ++ (mid ++ post))) : node.ReadsBack source := by
  obtain ⟨us, hus, rfl⟩ := h.scan_slice hscan
  have htext : Lexer.scan (node.span.text source).toList = .ok us := by
    rwa [Span.text, String.toList_ofList]
  have hhere := h.derives (.endAt ((node.span.text source).length + node.span.start)) rfl
  cases node with
  | stmt s =>
    have hmoved := hhere.replace 0
    have hempty : Lexer.start.feed "".toList = .ok ⟨"".length, .gap, []⟩ := rfl
    refine ⟨_, _, _, ?_, parseNext_ofTokens hmoved, rfl, (hmoved.replace _).statement_unique hhere⟩
    have hsource := ofSource_append hempty htext
    rwa [String.empty_append] at hsource
  | expr e =>
    have hmoved := hhere.replace 8
    have hfront : Lexer.start.feed "let v = ".toList = .ok ⟨"let v = ".length, .gap,
        [⟨.symbol .assign, ⟨6, 7⟩⟩, ⟨.identifier "v", ⟨4, 5⟩⟩, ⟨.keyword .letWord, ⟨0, 3⟩⟩]⟩ := rfl
    refine ⟨_, _, _, _, ofSource_append hfront htext,
      parseNext_ofTokens (.bare (.letInit rfl rfl rfl hmoved) (by simp [Token.endAt])), rfl, ?_⟩
    exact expression_eq_of_shift hhere hmoved

end ReadingBack

/-- **A node that is derived by a stretch of the tokens of a text is exact.** -/
theorem Located.exact {source : String} {node : Node} {pre mid post : List Token}
    (h : Located node mid) (hchildren : Spread node.children mid)
    (hscan : Lexer.scan source.toList = .ok (pre ++ (mid ++ post))) : node.Exact source := by
  obtain ⟨horder, hwithin⟩ := Lexer.inOrder_of_scan hscan
  have hmid := horder.append_right.append_left
  refine ⟨?_, ?_, h.readsBack hscan, fun child hchild => ?_, hchildren.pairwise hmid⟩
  · obtain ⟨first, last, hfirst, hlast, hspan⟩ := h.edges.exists_ends
    rw [hspan]
    have hsolid := hmid.solid first (List.mem_of_head? hfirst)
    have hle := hmid.stop_le_last hlast (List.mem_of_head? hfirst)
    show first.span.start < last.span.stop
    omega
  · obtain ⟨first, last, hfirst, hlast, hspan⟩ := h.edges.exists_ends
    rw [hspan, ← String.length_toList]
    exact hwithin last
      (List.mem_append_right _ (List.mem_append_left _ (List.mem_of_getLast? hlast)))
  · obtain ⟨pre', mid', post', rfl, hlocated, -⟩ := hchildren.exists_located hchild
    exact h.edges.inside hmid hlocated.edges

/-- The tokens of a text that the next statement takes. -/
theorem exists_stretch {source : String} {s s' : TokenStream} {stmt : Stmt Span}
    (hs : s.Along source) (hparse : s.parseNext = (.ok stmt, s')) :
    ∃ pre mid post, Lexer.scan source.toList = .ok (pre ++ (mid ++ post)) ∧
      Derives (.statement stmt) mid s'.here := by
  obtain ⟨mid, hpass, hderives⟩ := derives_of_parseNext hs.closed hparse
  obtain ⟨first, before, hfirst, hbefore⟩ := hs
  obtain ⟨us, hscan, heq⟩ := Lexer.exists_of_bind hfirst
  cases heq
  have hrest := (hbefore.trans hpass).rest_eq
  rw [(TokenStream.ofTokens_passes us _).rest_eq] at hrest
  -- the end mark is the last token on both sides, and is taken off
  have hlast := List.dropLast_concat_getLast (List.cons_ne_nil s'.here s'.ahead)
  rw [TokenStream.rest, TokenStream.rest, ← hlast, ← List.append_assoc] at hrest
  refine ⟨before, mid, (s'.here :: s'.ahead).dropLast, ?_, hderives⟩
  rw [hscan, ← List.append_assoc, (List.append_inj' hrest rfl).1]

/-- **Every node of a statement that is read is a stretch of the tokens** of the text, since a
stretch of a stretch of the tokens is one too. -/
theorem exists_located {source : String} {s s' : TokenStream} {stmt : Stmt Span} {node : Node}
    (hs : s.Along source) (hparse : s.parseNext = (.ok stmt, s'))
    (hnode : Node.Within (.stmt stmt) node) :
    ∃ pre mid post, Lexer.scan source.toList = .ok (pre ++ (mid ++ post)) ∧
      Located node mid ∧ Spread node.children mid := by
  induction hnode with
  | root =>
    obtain ⟨pre, mid, post, hscan, hderives⟩ := exists_stretch hs hparse
    have horder := (Lexer.inOrder_of_scan hscan).1.append_right.append_left
    obtain ⟨pre', mid', post', rfl, hnode⟩ := (hderives.spread horder).exists_located (.head _)
    exact ⟨pre ++ pre', mid', post' ++ post, by rw [hscan]; simp, hnode⟩
  | child _ hmem ih =>
    obtain ⟨pre, mid, post, hscan, -, hchildren⟩ := ih
    obtain ⟨pre', mid', post', rfl, hnode⟩ := hchildren.exists_located hmem
    exact ⟨pre ++ pre', mid', post' ++ post, by rw [hscan]; simp, hnode⟩

end Grammar

/-- **Spans are exact.**  Whenever a statement is read from a text, the text at the span of each of
its nodes reads back as this node, and the nodes below a node lie in its span, one behind the
other. -/
theorem Node.exact_of_parseNext {source : String} {s s' : TokenStream} {stmt : Stmt Span}
    {node : Node} (hs : s.Along source) (hparse : s.parseNext = (.ok stmt, s'))
    (hnode : Node.Within (.stmt stmt) node) : node.Exact source := by
  obtain ⟨pre, mid, post, hscan, hlocated, hchildren⟩ := Grammar.exists_located hs hparse hnode
  exact hlocated.exact hchildren hscan

/-- An assignment in a branch, as it is read from the beginning of a text. -/
def branchAssignment : Stmt Span :=
  .ifElse ⟨0, 16⟩ (.var ⟨4, 5⟩ "a")
    [.expr ⟨7, 15⟩ (.assign ⟨7, 15⟩ (.var ⟨7, 10⟩ "b") (.unary ⟨13, 15⟩ .not (.var ⟨14, 15⟩ "c")))]
    none

/-- The branch takes in the semicolon behind the assignment, which does not, and the name that is
assigned to has the parentheses around it. -/
theorem Node.exact_of_parseNext_target :
    Node.Within (.stmt branchAssignment) (.expr (.var ⟨7, 10⟩ "b")) ∧
      Node.Exact "if (a) (b) = !c; d" (.expr (.var ⟨7, 10⟩ "b")) := by
  have hwithin : Node.Within (.stmt branchAssignment) (.expr (.var ⟨7, 10⟩ "b")) :=
    .child (.child (.child .root (.tail _ (.head _))) (.head _)) (.head _)
  have hsource : TokenStream.ofSource "if (a) (b) = !c; d" = .ok (.ofTokens
      [⟨.keyword .ifWord, ⟨0, 2⟩⟩, ⟨.symbol .leftParen, ⟨3, 4⟩⟩, ⟨.identifier "a", ⟨4, 5⟩⟩,
        ⟨.symbol .rightParen, ⟨5, 6⟩⟩, ⟨.symbol .leftParen, ⟨7, 8⟩⟩, ⟨.identifier "b", ⟨8, 9⟩⟩,
        ⟨.symbol .rightParen, ⟨9, 10⟩⟩, ⟨.symbol .assign, ⟨11, 12⟩⟩, ⟨.symbol .bang, ⟨13, 14⟩⟩,
        ⟨.identifier "c", ⟨14, 15⟩⟩, ⟨.symbol .semicolon, ⟨15, 16⟩⟩, ⟨.identifier "d", ⟨17, 18⟩⟩]
      (.endAt 18)) := by rfl
  exact ⟨hwithin, Node.exact_of_parseNext ⟨_, [], hsource, .refl _⟩ rfl hwithin⟩

end Script
