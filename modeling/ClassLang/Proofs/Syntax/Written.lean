import ClassLang.Proofs.Syntax.Places
import ClassLang.Syntax.Parser.Decl
import Mathlib.Logic.Relation

/-!
# The tokens of a node

Which tokens a node of a tree is written with, from its first to its last (`Node.Written`).  This
is the grammar once more, but told of trees and with a place for every token.

Parentheses make it less than obvious where an expression starts.  In `(a + b) * c` the product
starts with `a`, as its left operand does, and the parenthesis in front of it belongs to neither.
So the tokens come in three pieces: parentheses in front of the node, the node, and parentheses
behind it.  An operation hands the parentheses in front of its left operand on, and those behind
its right operand.

Lists of statements, members and items may be interrupted by tokens that could not be read, but
only if that was reported.
-/

namespace ClassLang

/-- What has a place in a tree. -/
inductive Node
  | ident (ident : Ident)
  | type (ty : TypeExpr)
  | expr (e : Expr)
  | stmt (s : Stmt)
  | block (b : Block)
  | param (param : Param)
  | field (field : FieldDecl)
  | function (decl : FunctionDecl)
  | classDecl (decl : ClassDecl)
  | structDecl (decl : StructDecl)
  | script (script : Script)

/-- A member of a class as a node. -/
def ClassMember.node : ClassMember → Node
  | .field f => .field f
  | .method f => .function f

/-- An item as a node. -/
def Item.node : Item → Node
  | .classDecl decl => .classDecl decl
  | .structDecl decl => .structDecl decl
  | .function decl => .function decl

namespace Node

/-- The place of a node. -/
def span : Node → Span
  | .ident i => i.span
  | .type ty => ty.span
  | .expr e => e.span
  | .stmt s => s.span
  | .block b => b.span
  | .param p => p.span
  | .field f => f.span
  | .function decl => decl.span
  | .classDecl decl => decl.span
  | .structDecl decl => decl.span
  | .script s => s.span

end Node

/-- The nodes right below an expression. -/
def Expr.parts : Expr → List Node
  | .literal .. => []
  | .name _ i => [.ident i]
  | .binary _ _ left right _ => [.expr left, .expr right]
  | .assign _ target value _ => [.expr target, .expr value]
  | .call _ callee args _ => .ident callee :: args.map .expr
  | .methodCall _ receiver callee args _ => .expr receiver :: .ident callee :: args.map .expr
  | .member _ object i _ => [.expr object, .ident i]

/-- The nodes right below a statement. -/
def Stmt.parts : Stmt → List Node
  | .block _ stmts _ => stmts.map .stmt
  | .varDecl _ ty name value _ => .type ty :: .ident name :: (value.map Node.expr).toList
  | .ifThen condition positive _ => [.expr condition, .stmt positive]
  | .ifElse condition positive negative _ => [.expr condition, .stmt positive, .stmt negative]
  | .ret value _ => (value.map Node.expr).toList
  | .expr e _ => [.expr e]

namespace Node

/-- The nodes right below a node. -/
def parts : Node → List Node
  | .ident _ => []
  | .type ⟨.named i, _, _⟩ => [.ident i]
  | .type ⟨.primitive _, _, _⟩ => []
  | .expr e => e.parts
  | .stmt s => s.parts
  | .block b => b.stmts.map .stmt
  | .param p => [.type p.ty, .ident p.name]
  | .field f => [.type f.ty, .ident f.name]
  | .function decl =>
    .type decl.returnType :: .ident decl.name ::
      (decl.params.map .param ++ (decl.body.block?.map Node.block).toList)
  | .classDecl decl =>
    .ident decl.name :: ((decl.parent.map Node.ident).toList ++ decl.members.map ClassMember.node)
  | .structDecl decl => .ident decl.name :: decl.fields.map .field
  | .script s => s.items.map Item.node

/-- The second node is the first one, or a part of it at some depth. -/
abbrev Has : Node → Node → Prop := Relation.ReflTransGen fun node part => part ∈ node.parts

end Node

/-! ## Single tokens -/

/-- The token is the name, where it stands. -/
def Ident.IsWritten (ident : Ident) (token : Token) : Prop :=
  token.kind = .identifier ∧ ident = ⟨token.lexeme, token.span⟩

/-- The token is the primitive type or the name. -/
def TypeBase.IsWritten (token : Token) : TypeBase → Prop
  | .primitive p => token.kind = .keyword (.type p)
  | .named ident => ident.IsWritten token

/-- The token denotes the value. -/
def Literal.IsWritten (token : Token) : Literal → Prop
  | .int n => token.kind = .integer ∧ n = Text.decimalValue token.lexeme.toList
  | .bool value => token.kind = .keyword (.boolean value)
  | .string text => token.kind = .string ∧ text = Quoted.decode token.lexeme

/-- The mark for further arguments, behind a comma if there are parameters. -/
def ellipsisKinds (params : List Param) (variadic : Bool) : List TokenKind :=
  if variadic then (if params.isEmpty then [] else [.mark .comma]) ++ [.mark .ellipsis] else []

/-! ## Several nodes -/

/-- How a node is written: with the tokens from its first to its last, and with parentheses in
front of them and behind them. -/
abbrev Writing := Node → List Token → List Token → List Token → Prop

section

variable (W : Writing)

/-- A node with some more pairs of parentheses around it. -/
inductive Wrapped : Writing
  | intro {node : Node} {lefts opens core closes rights : List Token}
      (h : W node opens core closes)
      (hlefts : ∀ t ∈ lefts, t.kind = .mark .leftParen)
      (hrights : ∀ t ∈ rights, t.kind = .mark .rightParen)
      (hlength : lefts.length = rights.length) :
      Wrapped node (lefts ++ opens) core (closes ++ rights)

/-- An expression that may be missing, with the tokens in front of it that are missing with it. -/
inductive Optional (kinds : List TokenKind) : Option Expr → List Token → Prop
  | none : Optional kinds none []
  | some {e : Expr} {front opens core closes : List Token} (hfront : front.map Token.kind = kinds)
      (h : Wrapped W (.expr e) opens core closes) :
      Optional kinds (some e) (front ++ (opens ++ core ++ closes))

/-- Nodes with commas in between. -/
inductive Listed : List Node → List Token → Prop
  | nil : Listed [] []
  | one {node : Node} {opens core closes : List Token} (h : Wrapped W node opens core closes) :
      Listed [node] (opens ++ core ++ closes)
  | cons {node next : Node} {nodes : List Node} {opens core closes tokens : List Token}
      {comma : Token} (h : Wrapped W node opens core closes) (hcomma : comma.kind = .mark .comma)
      (hrest : Listed (next :: nodes) tokens) :
      Listed (node :: next :: nodes) (opens ++ core ++ closes ++ comma :: tokens)

/-- Nodes one behind another; other tokens may stand between them if something was reported. -/
inductive Strewn (clean : Prop) : List Node → List Token → Prop
  | nil {other : List Token} (hother : clean → other = []) : Strewn clean [] other
  | cons {node : Node} {nodes : List Node} {other opens core closes tokens : List Token}
      (hother : clean → other = []) (h : W node opens core closes)
      (hrest : Strewn clean nodes tokens) :
      Strewn clean (node :: nodes) (other ++ (opens ++ core ++ closes) ++ tokens)

end

/-! ## Nodes -/

/-- **How the nodes of a tree are written**, each with a place that covers its tokens.  Nothing is
left out if the reading is `clean`. -/
inductive Node.Written (source : List Char) (clean : Prop) : Writing
  | ident {ident : Ident} {t : Token} (h : ident.IsWritten t) :
      Written source clean (.ident ident) [] [t] []
  | type {ty : TypeExpr} {t : Token} {stars : List Token} (hbase : ty.base.IsWritten t)
      (hstars : ∀ star ∈ stars, star.kind = .mark .star) (hdepth : ty.depth = stars.length)
      (hspan : ty.span.Covers source (t :: stars)) :
      Written source clean (.type ty) [] (t :: stars) []
  | literal {id : NodeId} {value : Literal} {t : Token} (h : value.IsWritten t) :
      Written source clean (.expr (.literal id value t.span)) [] [t] []
  | name {id : NodeId} {ident : Ident} {t : Token} (h : ident.IsWritten t) :
      Written source clean (.expr (.name id ident)) [] [t] []
  | binary {id : NodeId} {op : BinaryOp} {left right : Expr} {span : Span} {t : Token}
      {o c cl o' c' cl' : List Token} (hop : t.kind.operator? = some op)
      (hleft : Wrapped (Written source clean) (.expr left) o c cl)
      (hright : Wrapped (Written source clean) (.expr right) o' c' cl')
      (hspan : span.Covers source (c ++ (cl ++ t :: o') ++ c')) :
      Written source clean (.expr (.binary id op left right span)) o
        (c ++ (cl ++ t :: o') ++ c') cl'
  | assign {id : NodeId} {target value : Expr} {span : Span} {t : Token}
      {o c cl o' c' cl' : List Token} (hop : t.kind = .mark .equal)
      (htarget : Wrapped (Written source clean) (.expr target) o c cl)
      (hvalue : Wrapped (Written source clean) (.expr value) o' c' cl')
      (hspan : span.Covers source (c ++ (cl ++ t :: o') ++ c')) :
      Written source clean (.expr (.assign id target value span)) o (c ++ (cl ++ t :: o') ++ c') cl'
  | call {id : NodeId} {callee : Ident} {args : List Expr} {span : Span} {t l r : Token}
      {ts : List Token} (hcallee : callee.IsWritten t) (hl : l.kind = .mark .leftParen)
      (hargs : Listed (Written source clean) (args.map .expr) ts) (hr : r.kind = .mark .rightParen)
      (hspan : span.Covers source ([t] ++ l :: ts ++ [r])) :
      Written source clean (.expr (.call id callee args span)) [] ([t] ++ l :: ts ++ [r]) []
  | methodCall {id : NodeId} {receiver : Expr} {callee : Ident} {args : List Expr} {span : Span}
      {o c cl ts : List Token} {dot t l r : Token}
      (hreceiver : Wrapped (Written source clean) (.expr receiver) o c cl)
      (hdot : dot.kind = .mark .dot) (hcallee : callee.IsWritten t) (hl : l.kind = .mark .leftParen)
      (hargs : Listed (Written source clean) (args.map .expr) ts) (hr : r.kind = .mark .rightParen)
      (hspan : span.Covers source (c ++ (cl ++ dot :: t :: l :: ts) ++ [r])) :
      Written source clean (.expr (.methodCall id receiver callee args span)) o
        (c ++ (cl ++ dot :: t :: l :: ts) ++ [r]) []
  | member {id : NodeId} {object : Expr} {member : Ident} {span : Span} {o c cl : List Token}
      {dot t : Token} (hobject : Wrapped (Written source clean) (.expr object) o c cl)
      (hdot : dot.kind = .mark .dot) (hmember : member.IsWritten t)
      (hspan : span.Covers source (c ++ (cl ++ [dot]) ++ [t])) :
      Written source clean (.expr (.member id object member span)) o (c ++ (cl ++ [dot]) ++ [t]) []
  | blockStmt {id : NodeId} {stmts : List Stmt} {span : Span} {l r : Token} {ts : List Token}
      (hl : l.kind = .mark .leftBrace)
      (hstmts : Strewn (Written source clean) clean (stmts.map .stmt) ts)
      (hr : r.kind = .mark .rightBrace) (hspan : span.Covers source ([l] ++ ts ++ [r])) :
      Written source clean (.stmt (.block id stmts span)) [] ([l] ++ ts ++ [r]) []
  | varDecl {id : NodeId} {ty : TypeExpr} {name : Ident} {value : Option Expr} {span : Span}
      {us ts : List Token} {t semicolon : Token} (hty : Written source clean (.type ty) [] us [])
      (hname : name.IsWritten t) (hvalue : Optional (Written source clean) [.mark .equal] value ts)
      (hsemicolon : semicolon.kind = .mark .semicolon)
      (hspan : span.Covers source (us ++ t :: ts ++ [semicolon])) :
      Written source clean (.stmt (.varDecl id ty name value span)) []
        (us ++ t :: ts ++ [semicolon]) []
  | ifThen {condition : Expr} {positive : Stmt} {span : Span} {i l r : Token}
      {o c cl o' c' : List Token} (hi : i.kind = .keyword .ifWord) (hl : l.kind = .mark .leftParen)
      (hcondition : Wrapped (Written source clean) (.expr condition) o c cl)
      (hr : r.kind = .mark .rightParen) (hpositive : Written source clean (.stmt positive) o' c' [])
      (hspan : span.Covers source ([i] ++ (l :: (o ++ c ++ cl) ++ r :: o') ++ c')) :
      Written source clean (.stmt (.ifThen condition positive span)) []
        ([i] ++ (l :: (o ++ c ++ cl) ++ r :: o') ++ c') []
  | ifElse {condition : Expr} {positive negative : Stmt} {span : Span} {i l r e : Token}
      {o c cl o' c' o'' c'' : List Token} (hi : i.kind = .keyword .ifWord)
      (hl : l.kind = .mark .leftParen)
      (hcondition : Wrapped (Written source clean) (.expr condition) o c cl)
      (hr : r.kind = .mark .rightParen) (hpositive : Written source clean (.stmt positive) o' c' [])
      (he : e.kind = .keyword .elseWord)
      (hnegative : Written source clean (.stmt negative) o'' c'' [])
      (hspan : span.Covers source
        ([i] ++ (l :: (o ++ c ++ cl) ++ r :: (o' ++ c') ++ e :: o'') ++ c'')) :
      Written source clean (.stmt (.ifElse condition positive negative span)) []
        ([i] ++ (l :: (o ++ c ++ cl) ++ r :: (o' ++ c') ++ e :: o'') ++ c'') []
  | ret {value : Option Expr} {span : Span} {t semicolon : Token} {ts : List Token}
      (ht : t.kind = .keyword .returnWord) (hvalue : Optional (Written source clean) [] value ts)
      (hsemicolon : semicolon.kind = .mark .semicolon)
      (hspan : span.Covers source ([t] ++ ts ++ [semicolon])) :
      Written source clean (.stmt (.ret value span)) [] ([t] ++ ts ++ [semicolon]) []
  | exprStmt {e : Expr} {span : Span} {o c cl : List Token} {semicolon : Token}
      (he : Wrapped (Written source clean) (.expr e) o c cl)
      (hsemicolon : semicolon.kind = .mark .semicolon)
      (hspan : span.Covers source (c ++ cl ++ [semicolon])) :
      Written source clean (.stmt (.expr e span)) o (c ++ cl ++ [semicolon]) []
  | block {b : Block} {ts : List Token} (h : Written source clean (.stmt b.toStmt) [] ts []) :
      Written source clean (.block b) [] ts []
  | param {id : NodeId} {ty : TypeExpr} {name : Ident} {span : Span} {us : List Token} {t : Token}
      (hty : Written source clean (.type ty) [] us []) (hname : name.IsWritten t)
      (hspan : span.Covers source (us ++ [] ++ [t])) :
      Written source clean (.param ⟨id, ty, name, span⟩) [] (us ++ [] ++ [t]) []
  | field {id : NodeId} {ty : TypeExpr} {name : Ident} {span : Span} {us : List Token}
      {t semicolon : Token} (hty : Written source clean (.type ty) [] us [])
      (hname : name.IsWritten t) (hsemicolon : semicolon.kind = .mark .semicolon)
      (hspan : span.Covers source (us ++ [t] ++ [semicolon])) :
      Written source clean (.field ⟨id, ty, name, span⟩) [] (us ++ [t] ++ [semicolon]) []
  | function {id : NodeId} {ty : TypeExpr} {name : Ident} {params : List Param} {b : Block}
      {span : Span} {us ts vs : List Token} {t l r : Token}
      (hty : Written source clean (.type ty) [] us []) (hname : name.IsWritten t)
      (hl : l.kind = .mark .leftParen)
      (hparams : Listed (Written source clean) (params.map .param) ts)
      (hr : r.kind = .mark .rightParen) (hbody : Written source clean (.block b) [] vs [])
      (hspan : span.Covers source (us ++ (t :: l :: ts ++ [r]) ++ vs)) :
      Written source clean (.function ⟨id, ty, name, params, .block b, span⟩) []
        (us ++ (t :: l :: ts ++ [r]) ++ vs) []
  | external {id : NodeId} {ty : TypeExpr} {name : Ident} {params : List Param} {variadic : Bool}
      {span : Span} {us ts dots : List Token} {x t l r semicolon : Token}
      (hx : x.kind = .keyword .externWord) (hty : Written source clean (.type ty) [] us [])
      (hname : name.IsWritten t) (hl : l.kind = .mark .leftParen)
      (hparams : Listed (Written source clean) (params.map .param) ts)
      (hdots : dots.map Token.kind = ellipsisKinds params variadic)
      (hr : r.kind = .mark .rightParen) (hsemicolon : semicolon.kind = .mark .semicolon)
      (hspan : span.Covers source
        ([x] ++ (us ++ t :: l :: (ts ++ dots) ++ [r]) ++ [semicolon])) :
      Written source clean (.function ⟨id, ty, name, params, .external variadic, span⟩) []
        ([x] ++ (us ++ t :: l :: (ts ++ dots) ++ [r]) ++ [semicolon]) []
  | classDecl {id : NodeId} {name : Ident} {members : List ClassMember} {span : Span}
      {k t l r : Token} {ts : List Token} (hk : k.kind = .keyword .classWord)
      (hname : name.IsWritten t) (hl : l.kind = .mark .leftBrace)
      (hmembers : Strewn (Written source clean) clean (members.map ClassMember.node) ts)
      (hr : r.kind = .mark .rightBrace) (hspan : span.Covers source ([k] ++ t :: l :: ts ++ [r])) :
      Written source clean (.classDecl ⟨id, name, none, members, span⟩) []
        ([k] ++ t :: l :: ts ++ [r]) []
  | childDecl {id : NodeId} {name parent : Ident} {members : List ClassMember} {span : Span}
      {k t x t' l r : Token} {ts : List Token} (hk : k.kind = .keyword .classWord)
      (hname : name.IsWritten t) (hx : x.kind = .keyword .extendsWord)
      (hparent : parent.IsWritten t') (hl : l.kind = .mark .leftBrace)
      (hmembers : Strewn (Written source clean) clean (members.map ClassMember.node) ts)
      (hr : r.kind = .mark .rightBrace)
      (hspan : span.Covers source ([k] ++ t :: x :: t' :: l :: ts ++ [r])) :
      Written source clean (.classDecl ⟨id, name, some parent, members, span⟩) []
        ([k] ++ t :: x :: t' :: l :: ts ++ [r]) []
  | structDecl {id : NodeId} {name : Ident} {fields : List FieldDecl} {span : Span}
      {k t l r : Token} {ts : List Token} (hk : k.kind = .keyword .structWord)
      (hname : name.IsWritten t) (hl : l.kind = .mark .leftBrace)
      (hfields : Strewn (Written source clean) True (fields.map .field) ts)
      (hr : r.kind = .mark .rightBrace) (hspan : span.Covers source ([k] ++ t :: l :: ts ++ [r])) :
      Written source clean (.structDecl ⟨id, name, fields, span⟩) [] ([k] ++ t :: l :: ts ++ [r]) []
  | script {items : List Item} {span : Span} {nodeCount : Nat} {ts : List Token} {eof : Token}
      (hitems : Strewn (Written source clean) clean (items.map Item.node) ts)
      (heof : eof.kind = .eof) (hspan : span.Covers source (ts ++ [eof])) :
      Written source clean (.script ⟨items, span, nodeCount⟩) [] (ts ++ [eof]) []

/-! ## Places and parts -/

section

variable {source : List Char} {clean : Prop} {node part : Node} {o c cl : List Token}

theorem Ident.IsWritten.covers {ident : Ident} {t : Token} (h : ident.IsWritten t) :
    ident.span.Covers source [t] := by
  rw [h.2]
  exact Span.covers_singleton t

/-- **The place of a node covers its tokens.** -/
theorem Node.Written.covers (h : Node.Written source clean node o c cl) :
    node.span.Covers source c := by
  cases h with
  | literal => exact Span.covers_singleton _
  | ident h => exact h.covers
  | name h => exact h.covers
  | block h =>
      cases h with
      | blockStmt hl hstmts hr hspan => exact hspan
  | _ => assumption

/-- A node is written somewhere among tokens, with its parentheses. -/
def Node.WrittenIn (source : List Char) (clean : Prop) (node : Node) (tokens : List Token) : Prop :=
  ∃ opens core closes, Node.Written source clean node opens core closes ∧
    opens ++ core ++ closes <:+: tokens

/-- A node is written among the tokens of another one, and its parentheses are too, or they are
among the parentheses of that one. -/
def Node.WrittenWithin (source : List Char) (clean : Prop) (node : Node)
    (opens core closes : List Token) : Prop :=
  ∃ o c cl, Node.Written source clean node o c cl ∧ o ++ c ++ cl <:+: opens ++ core ++ closes ∧
    c <:+: core

theorem Node.WrittenIn.mono {tokens tokens' : List Token}
    (h : Node.WrittenIn source clean node tokens) (hamong : tokens <:+: tokens') :
    Node.WrittenIn source clean node tokens' := by
  obtain ⟨o, c, cl, hwritten, hin⟩ := h
  exact ⟨o, c, cl, hwritten, hin.trans hamong⟩

theorem Node.WrittenIn.within {opens core closes tokens : List Token}
    (h : Node.WrittenIn source clean node tokens) (hamong : tokens <:+: core) :
    Node.WrittenWithin source clean node opens core closes := by
  obtain ⟨o, c, cl, hwritten, hin⟩ := h
  have hcore := hin.trans hamong
  exact ⟨o, c, cl, hwritten, hcore.trans (List.infix_append ..),
    (List.infix_append ..).trans hcore⟩

theorem Node.Written.writtenIn (h : Node.Written source clean node o c cl) :
    Node.WrittenIn source clean node (o ++ c ++ cl) :=
  ⟨o, c, cl, h, List.infix_rfl⟩

theorem Wrapped.writtenIn (h : Wrapped (Node.Written source clean) node o c cl) :
    Node.WrittenIn source clean node (o ++ c ++ cl) := by
  obtain @⟨_, lefts, o, c, cl, rights, hwritten⟩ := h
  exact ⟨o, c, cl, hwritten, lefts, rights, by simp⟩

/-- An operand at the start or at the end, whose parentheses are those of the operation. -/
theorem Wrapped.within {opens core closes : List Token}
    (h : Wrapped (Node.Written source clean) node o c cl)
    (hamong : o ++ c ++ cl <:+: opens ++ core ++ closes) (hcore : c <:+: core) :
    Node.WrittenWithin source clean node opens core closes := by
  obtain @⟨_, lefts, o, c, cl, rights, hwritten⟩ := h
  have hin : o ++ c ++ cl <:+: lefts ++ o ++ c ++ (cl ++ rights) := ⟨lefts, rights, by simp⟩
  exact ⟨o, c, cl, hwritten, hin.trans hamong, hcore⟩

theorem Optional.writtenIn {kinds : List TokenKind} {value : Option Expr} {tokens : List Token}
    (h : Optional (Node.Written source clean) kinds value tokens)
    (hpart : part ∈ (value.map Node.expr).toList) : Node.WrittenIn source clean part tokens := by
  cases h with
  | none => simp at hpart
  | @some e front o c cl _ h =>
      obtain rfl : part = .expr e := by simpa using hpart
      exact h.writtenIn.mono (List.suffix_append ..).isInfix

theorem Listed.writtenIn {nodes : List Node} {tokens : List Token}
    (h : Listed (Node.Written source clean) nodes tokens) (hpart : part ∈ nodes) :
    Node.WrittenIn source clean part tokens := by
  induction h with
  | nil => simp at hpart
  | one h =>
      obtain rfl := List.mem_singleton.1 hpart
      exact h.writtenIn
  | cons h _ _ ih =>
      rcases List.mem_cons.1 hpart with rfl | hrest
      · exact h.writtenIn.mono (List.prefix_append ..).isInfix
      · exact (ih hrest).mono ((List.suffix_cons ..).trans (List.suffix_append ..)).isInfix

theorem Strewn.writtenIn {clean' : Prop} {nodes : List Node} {tokens : List Token}
    (h : Strewn (Node.Written source clean) clean' nodes tokens) (hpart : part ∈ nodes) :
    Node.WrittenIn source clean part tokens := by
  induction h with
  | nil => simp at hpart
  | cons _ h _ ih =>
      rcases List.mem_cons.1 hpart with rfl | hrest
      · exact h.writtenIn.mono (List.infix_append ..)
      · exact (ih hrest).mono (List.suffix_append ..).isInfix

theorem Ident.IsWritten.writtenIn {ident : Ident} {t : Token} (h : ident.IsWritten t) :
    Node.WrittenIn source clean (.ident ident) [t] :=
  (Node.Written.ident h).writtenIn

section

variable {opens core closes : List Token}

/-- The name of a type is written in front of its stars. -/
theorem TypeExpr.parts_within {ty : TypeExpr}
    (h : Node.Written source clean (.type ty) opens core closes)
    (hpart : part ∈ (Node.type ty).parts) :
    Node.WrittenWithin source clean part opens core closes := by
  cases h with
  | @type ty t stars hbase =>
      obtain ⟨base, depth, span⟩ := ty
      cases base with
      | primitive => simp [Node.parts] at hpart
      | named i =>
          obtain rfl : part = .ident i := by simpa [Node.parts] using hpart
          exact (hbase.writtenIn).within ⟨[], stars, by simp⟩

/-- Operands are written in front of their operators and behind them, and arguments between
parentheses. -/
theorem Expr.parts_within {e : Expr}
    (h : Node.Written source clean (.expr e) opens core closes) (hpart : part ∈ e.parts) :
    Node.WrittenWithin source clean part opens core closes := by
  cases h with
  | literal => simp [Expr.parts] at hpart
  | name h =>
      obtain rfl := List.mem_singleton.1 hpart
      exact h.writtenIn.within List.infix_rfl
  | @binary id op left right span t o c cl o' c' cl' hop hleft hright =>
      simp only [Expr.parts, List.mem_cons, List.not_mem_nil, or_false] at hpart
      rcases hpart with rfl | rfl
      · exact hleft.within ⟨[], t :: o' ++ c' ++ closes, by simp⟩ ⟨[], cl ++ t :: o' ++ c', by simp⟩
      · exact hright.within ⟨opens ++ c ++ cl ++ [t], [], by simp⟩ ⟨c ++ cl ++ t :: o', [], by simp⟩
  | @assign id left right span t o c cl o' c' cl' hop hleft hright =>
      simp only [Expr.parts, List.mem_cons, List.not_mem_nil, or_false] at hpart
      rcases hpart with rfl | rfl
      · exact hleft.within ⟨[], t :: o' ++ c' ++ closes, by simp⟩ ⟨[], cl ++ t :: o' ++ c', by simp⟩
      · exact hright.within ⟨opens ++ c ++ cl ++ [t], [], by simp⟩ ⟨c ++ cl ++ t :: o', [], by simp⟩
  | @call id callee args span t l r ts hcallee hl hargs =>
      rcases List.mem_cons.1 hpart with rfl | hargs'
      · exact hcallee.writtenIn.within ⟨[], l :: ts ++ [r], by simp⟩
      · exact (hargs.writtenIn hargs').within ⟨[t, l], [r], by simp⟩
  | @methodCall id receiver callee args span o c cl ts dot t l r hreceiver hdot hcallee hl hargs =>
      simp only [Expr.parts, List.mem_cons] at hpart
      rcases hpart with rfl | rfl | hargs'
      · exact hreceiver.within ⟨[], dot :: t :: l :: ts ++ [r], by simp⟩
          ⟨[], cl ++ dot :: t :: l :: ts ++ [r], by simp⟩
      · exact hcallee.writtenIn.within ⟨c ++ cl ++ [dot], l :: ts ++ [r], by simp⟩
      · exact (hargs.writtenIn hargs').within ⟨c ++ cl ++ [dot, t, l], [r], by simp⟩
  | @member id object i span o c cl dot t hobject hdot hmember =>
      simp only [Expr.parts, List.mem_cons, List.not_mem_nil, or_false] at hpart
      rcases hpart with rfl | rfl
      · exact hobject.within ⟨[], [dot, t], by simp⟩ ⟨[], cl ++ [dot, t], by simp⟩
      · exact hmember.writtenIn.within ⟨c ++ cl ++ [dot], [], by simp⟩

/-- The parts of a statement are written between its keywords and marks. -/
theorem Stmt.parts_within {s : Stmt}
    (h : Node.Written source clean (.stmt s) opens core closes) (hpart : part ∈ s.parts) :
    Node.WrittenWithin source clean part opens core closes := by
  cases h with
  | @blockStmt id stmts span l r ts hl hstmts =>
      exact (hstmts.writtenIn hpart).within ⟨[l], [r], by simp⟩
  | @varDecl id ty name value span us ts t semicolon hty hname hvalue =>
      simp only [Stmt.parts, List.mem_cons] at hpart
      rcases hpart with rfl | rfl | hvalue'
      · exact hty.writtenIn.within ⟨[], t :: ts ++ [semicolon], by simp⟩
      · exact hname.writtenIn.within ⟨us, ts ++ [semicolon], by simp⟩
      · exact (hvalue.writtenIn hvalue').within ⟨us ++ [t], [semicolon], by simp⟩
  | @ifThen condition positive span i l r o c cl o' c' hi hl hcondition hr hpositive =>
      simp only [Stmt.parts, List.mem_cons, List.not_mem_nil, or_false] at hpart
      rcases hpart with rfl | rfl
      · exact hcondition.writtenIn.within ⟨[i, l], r :: o' ++ c', by simp⟩
      · exact hpositive.writtenIn.within ⟨i :: l :: (o ++ c ++ cl) ++ [r], [], by simp⟩
  | @ifElse condition positive negative span i l r e o c cl o' c' o'' c'' hi hl hcondition hr
      hpositive he hnegative =>
      simp only [Stmt.parts, List.mem_cons, List.not_mem_nil, or_false] at hpart
      rcases hpart with rfl | rfl | rfl
      · exact hcondition.writtenIn.within ⟨[i, l], r :: (o' ++ c') ++ e :: (o'' ++ c''), by simp⟩
      · exact hpositive.writtenIn.within
          ⟨i :: l :: (o ++ c ++ cl) ++ [r], e :: (o'' ++ c''), by simp⟩
      · exact hnegative.writtenIn.within
          ⟨i :: l :: (o ++ c ++ cl) ++ r :: (o' ++ c') ++ [e], [], by simp⟩
  | @ret value span t semicolon ts ht hvalue =>
      exact (hvalue.writtenIn hpart).within ⟨[t], [semicolon], by simp⟩
  | @exprStmt e span o c cl semicolon he =>
      obtain rfl := List.mem_singleton.1 hpart
      exact he.within ⟨[], [semicolon], by simp⟩ ⟨[], cl ++ [semicolon], by simp⟩

/-- Parameters are written between parentheses, in front of the body if there is one. -/
theorem FunctionDecl.parts_within {decl : FunctionDecl}
    (h : Node.Written source clean (.function decl) opens core closes)
    (hpart : part ∈ (Node.function decl).parts) :
    Node.WrittenWithin source clean part opens core closes := by
  cases h with
  | @function id ty name params b span us ts vs t l r hty hname hl hparams hr hbody =>
      simp only [Node.parts, FunctionBody.block?, Option.map_some, Option.toList_some,
        List.mem_cons, List.mem_append, List.not_mem_nil, or_false] at hpart
      rcases hpart with rfl | rfl | hparam | rfl
      · exact hty.writtenIn.within ⟨[], t :: l :: ts ++ r :: vs, by simp⟩
      · exact hname.writtenIn.within ⟨us, l :: ts ++ r :: vs, by simp⟩
      · exact (hparams.writtenIn hparam).within ⟨us ++ [t, l], r :: vs, by simp⟩
      · exact hbody.writtenIn.within ⟨us ++ t :: l :: ts ++ [r], [], by simp⟩
  | @external id ty name params variadic span us ts dots x t l r semicolon hx hty hname hl
      hparams =>
      simp only [Node.parts, FunctionBody.block?, Option.map_none, Option.toList_none,
        List.mem_cons, List.append_nil] at hpart
      rcases hpart with rfl | rfl | hparam
      · exact hty.writtenIn.within ⟨[x], t :: l :: (ts ++ dots) ++ [r, semicolon], by simp⟩
      · exact hname.writtenIn.within ⟨x :: us, l :: (ts ++ dots) ++ [r, semicolon], by simp⟩
      · exact (hparams.writtenIn hparam).within ⟨x :: us ++ [t, l], dots ++ [r, semicolon], by simp⟩

/-- Members are written between braces, behind the parent if there is one. -/
theorem ClassDecl.parts_within {decl : ClassDecl}
    (h : Node.Written source clean (.classDecl decl) opens core closes)
    (hpart : part ∈ (Node.classDecl decl).parts) :
    Node.WrittenWithin source clean part opens core closes := by
  cases h with
  | @classDecl id name members span k t l r ts hk hname hl hmembers =>
      simp only [Node.parts, Option.map_none, Option.toList_none, List.nil_append,
        List.mem_cons] at hpart
      rcases hpart with rfl | hmember
      · exact hname.writtenIn.within ⟨[k], l :: ts ++ [r], by simp⟩
      · exact (hmembers.writtenIn hmember).within ⟨[k, t, l], [r], by simp⟩
  | @childDecl id name parent members span k t x t' l r ts hk hname hx hparent hl hmembers =>
      simp only [Node.parts, Option.map_some, Option.toList_some, List.singleton_append,
        List.mem_cons] at hpart
      rcases hpart with rfl | rfl | hmember
      · exact hname.writtenIn.within ⟨[k], x :: t' :: l :: ts ++ [r], by simp⟩
      · exact hparent.writtenIn.within ⟨[k, t, x], l :: ts ++ [r], by simp⟩
      · exact (hmembers.writtenIn hmember).within ⟨[k, t, x, t', l], [r], by simp⟩

/-- **The parts of a node are written among its tokens.** -/
theorem Node.Written.within (h : Node.Written source clean node opens core closes)
    (hpart : part ∈ node.parts) : Node.WrittenWithin source clean part opens core closes := by
  cases node with
  | ident i => simp [parts] at hpart
  | type ty => exact ty.parts_within h hpart
  | expr e => exact e.parts_within h hpart
  | stmt s => exact s.parts_within h hpart
  | block b =>
      cases h with
      | block h => exact b.toStmt.parts_within h hpart
  | param param =>
      cases h with
      | @param id ty name span us t hty hname =>
          simp only [parts, List.mem_cons, List.not_mem_nil, or_false] at hpart
          rcases hpart with rfl | rfl
          · exact hty.writtenIn.within ⟨[], [t], by simp⟩
          · exact hname.writtenIn.within ⟨us, [], by simp⟩
  | field field =>
      cases h with
      | @field id ty name span us t semicolon hty hname =>
          simp only [parts, List.mem_cons, List.not_mem_nil, or_false] at hpart
          rcases hpart with rfl | rfl
          · exact hty.writtenIn.within ⟨[], [t, semicolon], by simp⟩
          · exact hname.writtenIn.within ⟨us, [semicolon], by simp⟩
  | function decl => exact decl.parts_within h hpart
  | classDecl decl => exact decl.parts_within h hpart
  | structDecl decl =>
      cases h with
      | @structDecl id name fields span k t l r ts hk hname hl hfields =>
          rcases List.mem_cons.1 hpart with rfl | hfield
          · exact hname.writtenIn.within ⟨[k], l :: ts ++ [r], by simp⟩
          · exact (hfields.writtenIn hfield).within ⟨[k, t, l], [r], by simp⟩
  | script script =>
      cases h with
      | @script items span nodeCount ts eof hitems =>
          exact (hitems.writtenIn hpart).within ⟨[], [eof], by simp⟩

end

/-- **So are their parts**, at every depth. -/
theorem Node.Written.has (h : Node.Written source clean node o c cl) (hhas : node.Has part) :
    Node.WrittenWithin source clean part o c cl := by
  induction hhas with
  | refl => exact ⟨o, c, cl, h, List.infix_rfl, List.infix_rfl⟩
  | tail _ hpart ih =>
      obtain ⟨o', c', cl', hwritten, hin, hcore⟩ := ih
      obtain ⟨o'', c'', cl'', hwritten', hin', hcore'⟩ := hwritten.within hpart
      exact ⟨o'', c'', cl'', hwritten', hin'.trans hin, hcore'.trans hcore⟩

end

end ClassLang
