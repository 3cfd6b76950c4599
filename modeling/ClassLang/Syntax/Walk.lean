import ClassLang.Syntax.Tree

/-!
# Walking a syntax tree

The nodes of a script in the order a reader meets them: each node before its
parts, and the parts in source order.
-/

namespace ClassLang

/-- A node met on the way through a tree. -/
inductive Visit
  | item (item : Item)
  | classDecl (decl : ClassDecl)
  | structDecl (decl : StructDecl)
  | function (decl : FunctionDecl)
  | block (id : NodeId)
  | stmt (stmt : Stmt)
  | expr (expr : Expr)
  deriving Repr, Inhabited

mutual

/-- The expressions in an expression, itself first. -/
def Expr.subexprs : Expr → List Expr
  | .literal id value span => [.literal id value span]
  | .name id ident => [.name id ident]
  | .binary id op left right span =>
    .binary id op left right span :: (left.subexprs ++ right.subexprs)
  | .assign id target value span =>
    .assign id target value span :: (target.subexprs ++ value.subexprs)
  | .call id callee args span => .call id callee args span :: Expr.subexprsOfAll args
  | .methodCall id receiver callee args span =>
    .methodCall id receiver callee args span ::
      (receiver.subexprs ++ Expr.subexprsOfAll args)
  | .member id object part span => .member id object part span :: object.subexprs

/-- The expressions in a list of expressions. -/
def Expr.subexprsOfAll : List Expr → List Expr
  | [] => []
  | e :: rest => e.subexprs ++ Expr.subexprsOfAll rest

end

/-- The nodes of an expression. -/
def Expr.visits (e : Expr) : List Visit := e.subexprs.map .expr

/-- The nodes of an expression that may be missing. -/
def Expr.visitsOfOption : Option Expr → List Visit
  | some e => e.visits
  | none => []

mutual

/-- The nodes of a statement. -/
def Stmt.visits : Stmt → List Visit
  | .block id stmts span =>
    .stmt (.block id stmts span) :: .block id :: Stmt.visitsOfAll stmts
  | .varDecl id ty name value span =>
    .stmt (.varDecl id ty name value span) :: Expr.visitsOfOption value
  | .ifThen condition positive span =>
    .stmt (.ifThen condition positive span) :: (condition.visits ++ positive.visits)
  | .ifElse condition positive negative span =>
    .stmt (.ifElse condition positive negative span) ::
      (condition.visits ++ positive.visits ++ negative.visits)
  | .ret value span => .stmt (.ret value span) :: Expr.visitsOfOption value
  | .expr e span => .stmt (.expr e span) :: e.visits

/-- The nodes of a list of statements. -/
def Stmt.visitsOfAll : List Stmt → List Visit
  | [] => []
  | s :: rest => s.visits ++ Stmt.visitsOfAll rest

end

/-- The nodes of a function. -/
def FunctionDecl.visits (decl : FunctionDecl) : List Visit :=
  .function decl ::
    match decl.body with
    | .block b => .block b.id :: Stmt.visitsOfAll b.stmts
    | .external _ => []

/-- The nodes of an item. -/
def Item.visits (item : Item) : List Visit :=
  .item item ::
    match item with
    | .classDecl decl => .classDecl decl :: decl.methods.flatMap FunctionDecl.visits
    | .structDecl decl => [.structDecl decl]
    | .function decl => decl.visits

/-- The nodes of a script. -/
def Script.visits (script : Script) : List Visit := script.items.flatMap Item.visits

/-- The string literals of a script, in source order. -/
def Script.stringLiterals (script : Script) : List (NodeId × String) :=
  script.visits.filterMap fun
    | .expr (.literal id (.string text) _) => some (id, text)
    | _ => none

end ClassLang
