import ClassLang.Syntax.Parser.Expr
import ClassLang.Syntax.Walk
import ClassLang.Token.Piece
import ClassLang.Ty

/-!
# The nodes of a tree

Later stages attach what they find to node numbers, so a tree is only a safe place to keep
things if its numbers are pairwise different.  This file lists the numbers of each kind of
tree, and says what the parser promises about a whole script (`Script.Proper`):

* the numbers are pairwise different;
* only places are assigned to, and no integer literal is too large;
* the functions of classes have bodies;
* items and functions are called by words.
-/

namespace ClassLang

/-- The numbers of the nodes of an expression. -/
def Expr.nodes (e : Expr) : List NodeId := e.subexprs.map Expr.id

/-- The numbers of the nodes of expressions. -/
def Expr.nodesOfAll (es : List Expr) : List NodeId := (Expr.subexprsOfAll es).map Expr.id

section

variable (id : NodeId) (ident : Ident) (span : Span) (e e' : Expr) (es : List Expr)

attribute [local simp] Expr.subexprs Expr.subexprsOfAll

@[simp] theorem Expr.nodes_literal (value : Literal) :
    (Expr.literal id value span).nodes = [id] := rfl

@[simp] theorem Expr.nodes_name : (Expr.name id ident).nodes = [id] := rfl

@[simp] theorem Expr.nodes_binary (op : BinaryOp) :
    (Expr.binary id op e e' span).nodes = id :: (e.nodes ++ e'.nodes) := by
  simp [nodes, Expr.id]

@[simp] theorem Expr.nodes_assign :
    (Expr.assign id e e' span).nodes = id :: (e.nodes ++ e'.nodes) := by
  simp [nodes, Expr.id]

@[simp] theorem Expr.nodes_call :
    (Expr.call id ident es span).nodes = id :: Expr.nodesOfAll es := rfl

@[simp] theorem Expr.nodes_methodCall :
    (Expr.methodCall id e ident es span).nodes = id :: (e.nodes ++ Expr.nodesOfAll es) := by
  simp [nodes, nodesOfAll, Expr.id]

@[simp] theorem Expr.nodes_member : (Expr.member id e ident span).nodes = id :: e.nodes := rfl

@[simp] theorem Expr.nodesOfAll_nil : Expr.nodesOfAll [] = [] := rfl

@[simp] theorem Expr.nodesOfAll_cons :
    Expr.nodesOfAll (e :: es) = e.nodes ++ Expr.nodesOfAll es := by
  simp [nodes, nodesOfAll]

/-- An expression is among its nodes. -/
theorem Expr.id_mem_nodes : e.id ∈ e.nodes := by
  cases e <;> simp [Expr.id]

end

/-- An assignment has a place on its left side, and an integer literal is not too large. -/
def Expr.Regular : Expr → Prop
  | .literal _ (.int n) _ => n ≤ Parser.maxLiteral
  | .assign _ target _ _ => target.isPlace = true
  | _ => True

/-- All parts of an expression are regular. -/
def Expr.Proper (e : Expr) : Prop := ∀ sub ∈ e.subexprs, sub.Regular

/-- The same for a list of expressions. -/
def Expr.AllProper (es : List Expr) : Prop := ∀ sub ∈ Expr.subexprsOfAll es, sub.Regular

section

variable {id : NodeId} {ident : Ident} {span : Span} {e e' : Expr} {es : List Expr}

attribute [local simp] Expr.subexprs Expr.subexprsOfAll

/-- An integer that is written is not too large. -/
@[simp] theorem Expr.proper_literal {value : Literal} :
    (Expr.literal id value span).Proper ↔ ∀ n, value = .int n → n ≤ Parser.maxLiteral := by
  cases value <;> simp [Proper, Regular]

@[simp] theorem Expr.proper_name : (Expr.name id ident).Proper := by
  simp [Proper, Regular]

/-- Both operands are proper. -/
@[simp] theorem Expr.proper_binary {op : BinaryOp} :
    (Expr.binary id op e e' span).Proper ↔ e.Proper ∧ e'.Proper := by
  simp [Proper, Regular, or_imp, forall_and]

/-- The target is a place, and both sides are proper. -/
@[simp] theorem Expr.proper_assign :
    (Expr.assign id e e' span).Proper ↔ e.isPlace = true ∧ e.Proper ∧ e'.Proper := by
  simp [Proper, Regular, or_imp, forall_and]

/-- The arguments of a call are proper. -/
@[simp] theorem Expr.proper_call : (Expr.call id ident es span).Proper ↔ Expr.AllProper es := by
  simp [Proper, AllProper, Regular]

/-- The receiver and the arguments are proper. -/
@[simp] theorem Expr.proper_methodCall :
    (Expr.methodCall id e ident es span).Proper ↔ e.Proper ∧ Expr.AllProper es := by
  simp [Proper, AllProper, Regular, or_imp, forall_and]

@[simp] theorem Expr.proper_member : (Expr.member id e ident span).Proper ↔ e.Proper := by
  simp [Proper, Regular]

@[simp] theorem Expr.allProper_nil : Expr.AllProper [] := by
  simp [AllProper]

/-- The first expression and the others are proper. -/
@[simp] theorem Expr.allProper_cons : Expr.AllProper (e :: es) ↔ e.Proper ∧ Expr.AllProper es := by
  simp [Proper, AllProper, or_imp, forall_and]

end

/-- The numbers of the nodes of an expression that may be missing. -/
def Expr.nodesOfOption : Option Expr → List NodeId
  | some e => e.nodes
  | none => []

mutual

/-- The numbers of the nodes of a statement. -/
def Stmt.nodes : Stmt → List NodeId
  | .block id stmts _ => id :: Stmt.nodesOfAll stmts
  | .varDecl id _ _ value _ => id :: Expr.nodesOfOption value
  | .ifThen condition positive _ => condition.nodes ++ positive.nodes
  | .ifElse condition positive negative _ =>
    condition.nodes ++ (positive.nodes ++ negative.nodes)
  | .ret value _ => Expr.nodesOfOption value
  | .expr e _ => e.nodes

/-- The numbers of the nodes of statements. -/
def Stmt.nodesOfAll : List Stmt → List NodeId
  | [] => []
  | s :: rest => s.nodes ++ Stmt.nodesOfAll rest

end

/-- Whether an expression on the way through a tree is regular. -/
def Visit.Regular : Visit → Prop
  | .expr e => e.Regular
  | _ => True

/-- The expressions of a statement are regular. -/
def Stmt.Proper (s : Stmt) : Prop := ∀ visit ∈ s.visits, visit.Regular

/-- The expressions of statements are regular. -/
def Stmt.AllProper (stmts : List Stmt) : Prop :=
  ∀ visit ∈ Stmt.visitsOfAll stmts, visit.Regular

section

variable {id : NodeId} {ty : TypeExpr} {name : Ident} {span : Span} {e : Expr}
  {value : Option Expr} {s s' : Stmt} {stmts : List Stmt}

attribute [local simp] Stmt.visits Stmt.visitsOfAll

/-- An expression is proper if all that is met in it is regular. -/
theorem Expr.proper_iff_visits : (∀ visit ∈ e.visits, visit.Regular) ↔ e.Proper := by
  simp [Expr.visits, Expr.Proper, Visit.Regular]

/-- The same for a value that may be missing. -/
theorem Expr.proper_iff_visitsOfOption :
    (∀ visit ∈ Expr.visitsOfOption value, visit.Regular) ↔ ∀ e ∈ value, e.Proper := by
  cases value with
  | none => simp [Expr.visitsOfOption]
  | some e => simp [Expr.visitsOfOption, Expr.proper_iff_visits]

/-- The statements of a block are proper. -/
@[simp] theorem Stmt.proper_block : (Stmt.block id stmts span).Proper ↔ Stmt.AllProper stmts := by
  simp [Proper, AllProper, Visit.Regular]

/-- The value of a declaration is proper, if there is one. -/
@[simp] theorem Stmt.proper_varDecl :
    (Stmt.varDecl id ty name value span).Proper ↔ ∀ e ∈ value, e.Proper := by
  rw [← Expr.proper_iff_visitsOfOption]
  simp [Proper, Visit.Regular]

/-- The condition and the statement are proper. -/
@[simp] theorem Stmt.proper_ifThen : (Stmt.ifThen e s span).Proper ↔ e.Proper ∧ s.Proper := by
  rw [← Expr.proper_iff_visits]
  simp [Proper, Visit.Regular, or_imp, forall_and]

/-- The condition and both sides are proper. -/
@[simp] theorem Stmt.proper_ifElse :
    (Stmt.ifElse e s s' span).Proper ↔ e.Proper ∧ s.Proper ∧ s'.Proper := by
  rw [← Expr.proper_iff_visits]
  simp [Proper, Visit.Regular, or_imp, forall_and]

@[simp] theorem Stmt.proper_ret : (Stmt.ret value span).Proper ↔ ∀ e ∈ value, e.Proper := by
  rw [← Expr.proper_iff_visitsOfOption]
  simp [Proper, Visit.Regular]

@[simp] theorem Stmt.proper_expr : (Stmt.expr e span).Proper ↔ e.Proper := by
  rw [← Expr.proper_iff_visits]
  simp [Proper, Visit.Regular]

@[simp] theorem Stmt.allProper_nil : Stmt.AllProper [] := by
  simp [AllProper]

/-- The first statement and the others are proper. -/
@[simp] theorem Stmt.allProper_cons :
    Stmt.AllProper (s :: stmts) ↔ s.Proper ∧ Stmt.AllProper stmts := by
  simp [Proper, AllProper, or_imp, forall_and]

end

/-- The numbers of the nodes of what follows the head of a function. -/
def FunctionBody.nodes : FunctionBody → List NodeId
  | .block b => b.toStmt.nodes
  | .external _ => []

/-- The numbers of the nodes of a function. -/
def FunctionDecl.nodes (decl : FunctionDecl) : List NodeId :=
  decl.id :: (decl.params.map Param.id ++ decl.body.nodes)

/-- A word that names something: it starts with a letter or an underscore, and goes on with
these and with digits. -/
def IsName (name : String) : Prop :=
  name.toList.head?.any isWordStart = true ∧ name.toList.all isWordPart = true

/-- A function is called by a word, and its expressions are regular. -/
def FunctionDecl.Proper (decl : FunctionDecl) : Prop :=
  IsName decl.name.name ∧ ∀ block ∈ decl.body.block?, block.toStmt.Proper

/-- The numbers of the nodes of a member of a class. -/
def ClassMember.nodes : ClassMember → List NodeId
  | .field f => [f.id]
  | .method f => f.nodes

/-- The expressions of a member are regular, and a member function has a body. -/
def ClassMember.Proper : ClassMember → Prop
  | .field _ => True
  | .method f => f.Proper ∧ f.body.isExternal = false

/-- The numbers of the nodes of an item. -/
def Item.nodes : Item → List NodeId
  | .classDecl decl => decl.id :: decl.members.flatMap ClassMember.nodes
  | .structDecl decl => decl.id :: decl.fields.map FieldDecl.id
  | .function decl => decl.nodes

/-- What the parser promises about an item. -/
def Item.Proper : Item → Prop
  | .classDecl decl => IsName decl.name.name ∧ ∀ member ∈ decl.members, member.Proper
  | .structDecl decl => IsName decl.name.name
  | .function decl => decl.Proper

/-- The numbers of the nodes of a script. -/
def Script.nodes (script : Script) : List NodeId := script.items.flatMap Item.nodes

/-- What the parser promises about a script. -/
structure Script.Proper (script : Script) : Prop where
  nodup : script.nodes.Nodup
  items : ∀ item ∈ script.items, item.Proper

/-! ## Tasks -/

/-- A call with or without a receiver in front of it. -/
inductive Expr.IsCall : Expr → NodeId → Ident → Option Expr → List Expr → Prop
  | call (id : NodeId) (callee : Ident) (args : List Expr) (span : Span) :
      IsCall (.call id callee args span) id callee none args
  | methodCall (id : NodeId) (object : Expr) (callee : Ident) (args : List Expr) (span : Span) :
      IsCall (.methodCall id object callee args span) id callee (some object) args

/-- Something to be computed inside a statement. -/
inductive Task
  | value (e : Expr)
  /-- The place that an expression names. -/
  | address (e : Expr)
  /-- The address of the object whose member is wanted. -/
  | base (e : Expr)
  /-- The receiver of a call of a function of a class, or of no class. -/
  | receiver (object : Option Expr) (owner : Option SymbolId)
  | values (es : List Expr)

/-- The expressions of a task. -/
def Task.subexprs : Task → List Expr
  | .value e | .address e | .base e => e.subexprs
  | .receiver object _ => object.toList.flatMap Expr.subexprs
  | .values es => Expr.subexprsOfAll es

/-! What holds of all expressions of a task holds of those of its parts. -/

section

variable {P : Expr → Prop} {id : NodeId} {left right : Expr} {span : Span}

/-- The parts of an operation are its operands. -/
theorem Expr.forall_binary {op : BinaryOp}
    (h : ∀ sub ∈ (Expr.binary id op left right span).subexprs, P sub) :
    (∀ sub ∈ left.subexprs, P sub) ∧ ∀ sub ∈ right.subexprs, P sub :=
  List.forall_mem_append.1 (List.forall_mem_cons.1 h).2

/-- The parts of an assignment are its two sides. -/
theorem Expr.forall_assign
    (h : ∀ sub ∈ (Expr.assign id left right span).subexprs, P sub) :
    (∀ sub ∈ left.subexprs, P sub) ∧ ∀ sub ∈ right.subexprs, P sub :=
  List.forall_mem_append.1 (List.forall_mem_cons.1 h).2

/-- The part of a member is its object. -/
theorem Expr.forall_member {part : Ident}
    (h : ∀ sub ∈ (Expr.member id left part span).subexprs, P sub) :
    ∀ sub ∈ left.subexprs, P sub :=
  (List.forall_mem_cons.1 h).2

/-- The parts of a call are its receiver and its arguments. -/
theorem Expr.IsCall.forall_parts {e : Expr} {callee : Ident} {object : Option Expr}
    {args : List Expr} (hcall : e.IsCall id callee object args)
    (h : ∀ sub ∈ e.subexprs, P sub) (owner : Option SymbolId) :
    (∀ sub ∈ (Task.receiver object owner).subexprs, P sub) ∧
      ∀ sub ∈ Expr.subexprsOfAll args, P sub := by
  cases hcall with
  | call => exact ⟨nofun, (List.forall_mem_cons.1 h).2⟩
  | methodCall =>
      rw [Task.subexprs, Option.toList_some, List.flatMap_singleton]
      exact List.forall_mem_append.1 (List.forall_mem_cons.1 h).2

/-- The expressions of a receiver are those of its object. -/
theorem Task.forall_object {owner : Option SymbolId}
    (h : ∀ sub ∈ (Task.receiver (some left) owner).subexprs, P sub) :
    ∀ sub ∈ left.subexprs, P sub := by
  rwa [Task.subexprs, Option.toList_some, List.flatMap_singleton] at h

/-- The parts of a list are the first expression and the others. -/
theorem Expr.forall_all {es : List Expr}
    (h : ∀ sub ∈ Expr.subexprsOfAll (left :: es), P sub) :
    (∀ sub ∈ left.subexprs, P sub) ∧ ∀ sub ∈ Expr.subexprsOfAll es, P sub :=
  List.forall_mem_append.1 h

end

/-- A statement or a list of statements to be carried out. -/
inductive StmtTask
  | one (s : Stmt)
  | all (stmts : List Stmt)

/-- The numbers of the nodes of a task. -/
def StmtTask.nodes : StmtTask → List NodeId
  | .one s => s.nodes
  | .all stmts => Stmt.nodesOfAll stmts

/-- The nodes that are met in a task. -/
def StmtTask.visits : StmtTask → List Visit
  | .one s => s.visits
  | .all stmts => Stmt.visitsOfAll stmts

/-! ## Nodes on the way through a tree -/

/-- The number of a node on the way through a tree that something is attached to. -/
def Visit.node? : Visit → Option NodeId
  | .expr e => some e.id
  | .stmt (.varDecl id _ _ _ _) => some id
  | _ => none

/-- The numbers that are met in an expression are those of its nodes. -/
theorem Expr.filterMap_visits (e : Expr) : e.visits.filterMap Visit.node? = e.nodes := by
  simp [Expr.visits, Expr.nodes, Visit.node?, List.filterMap_map, Function.comp_def]

/-- The same for a value that may be missing. -/
theorem Expr.filterMap_visitsOfOption (value : Option Expr) :
    (Expr.visitsOfOption value).filterMap Visit.node? = Expr.nodesOfOption value := by
  cases value with
  | none => rfl
  | some e => exact e.filterMap_visits

mutual

/-- What is met on the way through a statement are its nodes, in order. -/
theorem Stmt.visits_sublist (s : Stmt) : (s.visits.filterMap Visit.node?).Sublist s.nodes := by
  cases s with
  | block id stmts span => exact (Stmt.visitsOfAll_sublist stmts).cons id
  | varDecl id ty name value span =>
      exact (Expr.filterMap_visitsOfOption value ▸ List.Sublist.refl _ :
        List.Sublist _ _).cons_cons id
  | ifThen condition positive span =>
      simp only [Stmt.visits, List.filterMap_cons, Visit.node?, List.filterMap_append,
        Expr.filterMap_visits]
      exact (List.Sublist.refl _).append (Stmt.visits_sublist positive)
  | ifElse condition positive negative span =>
      simp only [Stmt.visits, List.filterMap_cons, Visit.node?, List.filterMap_append,
        Expr.filterMap_visits, List.append_assoc]
      exact (List.Sublist.refl _).append
        ((Stmt.visits_sublist positive).append (Stmt.visits_sublist negative))
  | ret value span => exact Expr.filterMap_visitsOfOption value ▸ List.Sublist.refl _
  | expr e span => exact e.filterMap_visits ▸ List.Sublist.refl _

/-- What is met in statements are nodes of them, in their order. -/
theorem Stmt.visitsOfAll_sublist (stmts : List Stmt) :
    ((Stmt.visitsOfAll stmts).filterMap Visit.node?).Sublist (Stmt.nodesOfAll stmts) := by
  cases stmts with
  | nil => exact .slnil
  | cons s rest =>
      simp only [Stmt.visitsOfAll, List.filterMap_append]
      exact (Stmt.visits_sublist s).append (Stmt.visitsOfAll_sublist rest)

end

/-- What is met in a task is a node of it. -/
theorem StmtTask.node?_mem_nodes (task : StmtTask) {visit : Visit} (hvisit : visit ∈ task.visits)
    {n : NodeId} (hn : visit.node? = some n) : n ∈ task.nodes := by
  have hmem : n ∈ task.visits.filterMap Visit.node? := List.mem_filterMap.2 ⟨visit, hvisit, hn⟩
  cases task with
  | one s => exact s.visits_sublist.subset hmem
  | all stmts => exact (Stmt.visitsOfAll_sublist stmts).subset hmem

/-- Only the body of a function is met on the way through it. -/
theorem FunctionDecl.visits_sublist (decl : FunctionDecl) :
    (decl.visits.filterMap Visit.node?).Sublist decl.body.nodes := by
  unfold FunctionDecl.visits
  cases decl.body with
  | block b => exact (Stmt.visitsOfAll_sublist b.stmts).cons b.id
  | external variadic => exact .slnil

end ClassLang
