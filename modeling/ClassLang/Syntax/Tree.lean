import ClassLang.Operator
import ClassLang.Primitive
import ClassLang.Span

/-!
# Syntax trees

A script is a list of items: classes, structs, and functions with a body or
without one.  Nodes that later stages attach information to carry a number of
their own; what is known about them is kept in tables under that number, and the
tree itself never changes.
-/

namespace ClassLang

/-- Number of a syntax node, unique in its script. -/
abbrev NodeId := Nat

/-- A name with its place. -/
structure Ident where
  name : String
  span : Span
  deriving DecidableEq, Repr, Inhabited

/-- The named part of a written type. -/
inductive TypeBase
  | primitive (primitive : Primitive)
  /-- The name of a class or a struct. -/
  | named (ident : Ident)
  deriving DecidableEq, Repr, Inhabited

/-- A type as written: a name followed by `depth` stars. -/
structure TypeExpr where
  base : TypeBase
  depth : Nat
  span : Span
  deriving DecidableEq, Repr, Inhabited

namespace TypeExpr

/-- Whether the type is `void` itself. -/
def isVoid (ty : TypeExpr) : Bool :=
  ty.depth == 0 && ty.base == .primitive .void

/-- The type with the canonical spelling of its base. -/
def text (ty : TypeExpr) : String :=
  let base := match ty.base with
    | .primitive p => p.name
    | .named ident => ident.name
  base ++ String.ofList (List.replicate ty.depth '*')

end TypeExpr

/-- Literals. -/
inductive Literal
  | int (value : Nat)
  | bool (value : Bool)
  /-- The text denoted, without quotes and escapes. -/
  | string (text : String)
  deriving DecidableEq, Repr, Inhabited

/-- Expressions. -/
inductive Expr
  | literal (id : NodeId) (value : Literal) (span : Span)
  /-- A bare name. -/
  | name (id : NodeId) (ident : Ident)
  | binary (id : NodeId) (op : BinaryOp) (left right : Expr) (span : Span)
  | assign (id : NodeId) (target value : Expr) (span : Span)
  /-- `callee(args)` -/
  | call (id : NodeId) (callee : Ident) (args : List Expr) (span : Span)
  /-- `receiver.callee(args)` -/
  | methodCall (id : NodeId) (receiver : Expr) (callee : Ident) (args : List Expr)
      (span : Span)
  /-- `object.member` -/
  | member (id : NodeId) (object : Expr) (member : Ident) (span : Span)
  deriving Repr, Inhabited

namespace Expr

/-- The number of the node. -/
def id : Expr → NodeId
  | .literal id .. | .name id .. | .binary id .. | .assign id .. | .call id ..
  | .methodCall id .. | .member id .. => id

/-- The place of the expression; parentheses around it do not count. -/
def span : Expr → Span
  | .literal _ _ s => s
  | .name _ ident => ident.span
  | .binary _ _ _ _ s => s
  | .assign _ _ _ s => s
  | .call _ _ _ s => s
  | .methodCall _ _ _ _ s => s
  | .member _ _ _ s => s

/-- Whether the expression names storage that can be assigned to. -/
def isPlace : Expr → Bool
  | .name .. | .member .. => true
  | _ => false

end Expr

/-- Statements. -/
inductive Stmt
  /-- `{ stmts }`, which opens a scope. -/
  | block (id : NodeId) (stmts : List Stmt) (span : Span)
  /-- `ty name = value;` -/
  | varDecl (id : NodeId) (ty : TypeExpr) (name : Ident) (value : Option Expr)
      (span : Span)
  /-- `if (condition) positive` -/
  | ifThen (condition : Expr) (positive : Stmt) (span : Span)
  /-- `if (condition) positive else negative` -/
  | ifElse (condition : Expr) (positive negative : Stmt) (span : Span)
  | ret (value : Option Expr) (span : Span)
  | expr (expr : Expr) (span : Span)
  deriving Repr, Inhabited

/-- The place of a statement. -/
def Stmt.span : Stmt → Span
  | .block _ _ s => s
  | .varDecl _ _ _ _ s => s
  | .ifThen _ _ s => s
  | .ifElse _ _ _ s => s
  | .ret _ s => s
  | .expr _ s => s

/-- A block of statements. -/
structure Block where
  id : NodeId
  stmts : List Stmt
  span : Span
  deriving Repr, Inhabited

/-- A block as a statement. -/
def Block.toStmt (block : Block) : Stmt := .block block.id block.stmts block.span

/-- `ty name;` inside a class or a struct. -/
structure FieldDecl where
  id : NodeId
  ty : TypeExpr
  name : Ident
  span : Span
  deriving Repr, Inhabited

/-- A declared parameter. -/
structure Param where
  id : NodeId
  ty : TypeExpr
  name : Ident
  span : Span
  deriving Repr, Inhabited

/-- What follows the head of a function. -/
inductive FunctionBody
  | block (block : Block)
  /-- The function is defined elsewhere; it may take further arguments. -/
  | external (variadic : Bool)
  deriving Repr, Inhabited

namespace FunctionBody

/-- Whether the function is defined elsewhere. -/
def isExternal : FunctionBody → Bool
  | .external _ => true
  | .block _ => false

/-- Whether the function takes further arguments. -/
def isVariadic : FunctionBody → Bool
  | .external variadic => variadic
  | .block _ => false

/-- The block, if there is one. -/
def block? : FunctionBody → Option Block
  | .block b => some b
  | .external _ => none

end FunctionBody

/-- A function: free, member, or defined elsewhere. -/
structure FunctionDecl where
  id : NodeId
  returnType : TypeExpr
  name : Ident
  params : List Param
  body : FunctionBody
  span : Span
  deriving Repr, Inhabited

/-- A member of a class. -/
inductive ClassMember
  | field (field : FieldDecl)
  | method (method : FunctionDecl)
  deriving Repr, Inhabited

/-- `class name extends parent { members }` -/
structure ClassDecl where
  id : NodeId
  name : Ident
  parent : Option Ident
  members : List ClassMember
  span : Span
  deriving Repr, Inhabited

namespace ClassDecl

/-- The fields, in source order. -/
def fields (decl : ClassDecl) : List FieldDecl :=
  decl.members.filterMap fun
    | .field f => some f
    | .method _ => none

/-- The member functions, in source order. -/
def methods (decl : ClassDecl) : List FunctionDecl :=
  decl.members.filterMap fun
    | .method f => some f
    | .field _ => none

end ClassDecl

/-- `struct name { fields }` -/
structure StructDecl where
  id : NodeId
  name : Ident
  fields : List FieldDecl
  span : Span
  deriving Repr, Inhabited

/-- A top-level declaration. -/
inductive Item
  | classDecl (decl : ClassDecl)
  | structDecl (decl : StructDecl)
  | function (decl : FunctionDecl)
  deriving Repr, Inhabited

/-- The place of an item. -/
def Item.span : Item → Span
  | .classDecl decl => decl.span
  | .structDecl decl => decl.span
  | .function decl => decl.span

/-- A whole source. -/
structure Script where
  items : List Item
  span : Span
  /-- Number of node numbers given out; each one is below it. -/
  nodeCount : Nat
  deriving Repr, Inhabited

namespace Script

/-- The classes, in source order. -/
def classes (script : Script) : List ClassDecl :=
  script.items.filterMap fun
    | .classDecl decl => some decl
    | _ => none

/-- The structs, in source order. -/
def structs (script : Script) : List StructDecl :=
  script.items.filterMap fun
    | .structDecl decl => some decl
    | _ => none

/-- The functions outside classes, in source order. -/
def functions (script : Script) : List FunctionDecl :=
  script.items.filterMap fun
    | .function decl => some decl
    | _ => none

theorem mem_classes {script : Script} {decl : ClassDecl} :
    decl ∈ script.classes ↔ .classDecl decl ∈ script.items := by
  refine List.mem_filterMap.trans ⟨?_, fun h => ⟨_, h, rfl⟩⟩
  rintro ⟨item, hitem, hsome⟩
  cases item <;> simp only [reduceCtorEq, Option.some.injEq] at hsome
  exact hsome ▸ hitem

theorem mem_structs {script : Script} {decl : StructDecl} :
    decl ∈ script.structs ↔ .structDecl decl ∈ script.items := by
  refine List.mem_filterMap.trans ⟨?_, fun h => ⟨_, h, rfl⟩⟩
  rintro ⟨item, hitem, hsome⟩
  cases item <;> simp only [reduceCtorEq, Option.some.injEq] at hsome
  exact hsome ▸ hitem

end Script

end ClassLang
