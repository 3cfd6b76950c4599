import ClassLang.Resolve.Decl
import ClassLang.Resolve.Expr

/-!
# Resolving statements and function bodies

Blocks and branches are scopes of their own.  A variable is bound after its initial
value has been resolved, so the value may use an outer variable of the same name.
A function that has a result must return on every path.
-/

namespace ClassLang

namespace Stmt

mutual

/-- Whether every path through a statement ends in a `return`. -/
def returns : Stmt → Bool
  | .ret _ _ => true
  | .block _ stmts _ => anyReturns stmts
  | .ifElse _ positive negative _ => negative.returns && positive.returns
  | .ifThen _ _ _ | .varDecl _ _ _ _ _ | .expr _ _ => false

/-- Whether every path through a list of statements ends in a `return`. -/
def anyReturns : List Stmt → Bool
  | [] => false
  | s :: rest => s.returns || anyReturns rest

end

/-- Whether the statement is a block. -/
def isBlock : Stmt → Bool
  | .block _ _ _ => true
  | _ => false

/-- The scope of a branch of a conditional statement: a block opens its own, any other
statement gets one. -/
def branchScope (branch : Stmt) (parent : ScopeId) : Analysis ScopeId :=
  if branch.isBlock then return parent else Analysis.pushScope parent .block

/-- Resolves `return value;` in a function with a return type. -/
def resolveReturn (value : Option Expr) (span : Span) (scope : ScopeId) (returnType : Ty) :
    Analysis Unit := do
  match value with
  | some value =>
    let actual ← value.resolve scope (some returnType)
    if returnType.isVoid then Analysis.mismatch .valueFromVoid value.span
    else Analysis.checkAssignable actual returnType value.span
  | none =>
    if returnType.isVoid || returnType.isError then return ()
    else Analysis.mismatch (.missingReturnValue (← Analysis.typeName returnType)) span

/-- Resolves a variable declaration. -/
def resolveVarDecl (id : NodeId) (ty : TypeExpr) (name : Ident) (value : Option Expr)
    (scope : ScopeId) : Analysis Unit := do
  let ty ← ty.resolveStorage scope "variable"
  match value with
  | some value =>
    let actual ← value.resolve scope (some ty)
    Analysis.checkAssignable actual ty value.span
  | none => pure ()
  let symbol ← Analysis.addSymbol (.localVariable ⟨name.name, name.span, ty⟩)
  Analysis.bindSymbol id symbol
  let _ ← Analysis.define scope name.name symbol name.span

/-- Resolves the condition of a conditional statement. -/
def resolveCondition (condition : Expr) (scope : ScopeId) : Analysis Unit := do
  let ty ← condition.resolve scope (some .bool)
  Analysis.expectBool ty "if condition" condition.span

mutual

/-- Resolves a statement of a function with a return type. -/
def resolve (returnType : Ty) (scope : ScopeId) : Stmt → Analysis Unit
  | .block id stmts _ => do
    let inner ← Analysis.scopeFor id scope .block
    resolveAll returnType inner stmts
  | .varDecl id ty name value _ => resolveVarDecl id ty name value scope
  | .ifThen condition positive _ => do
    resolveCondition condition scope
    let inner ← positive.branchScope scope
    positive.resolve returnType inner
  | .ifElse condition positive negative _ => do
    resolveCondition condition scope
    let inner ← positive.branchScope scope
    positive.resolve returnType inner
    let inner ← negative.branchScope scope
    negative.resolve returnType inner
  | .ret value span => resolveReturn value span scope returnType
  | .expr e _ => do
    let _ ← e.resolve scope none

/-- Resolves statements one after the other. -/
def resolveAll (returnType : Ty) (scope : ScopeId) : List Stmt → Analysis Unit
  | [] => return ()
  | s :: rest => do
    s.resolve returnType scope
    resolveAll returnType scope rest

end

end Stmt

/-- Resolves the body of a function and says whether there was one to resolve. -/
def FunctionDecl.resolveBody (decl : FunctionDecl) : Analysis Bool := do
  match decl.body.block? with
  | none => return false
  | some body =>
    let ctx ← get
    match ctx.bindings.symbol? decl.id, ctx.bindings.scope? decl.id with
    | some id, some scope =>
      let returnType := ((ctx.symbols.function? id).map FunctionEntry.returnType).getD .error
      body.toStmt.resolve returnType scope
      if returnType.isVoid || returnType.isError || Stmt.anyReturns body.stmts then
        return true
      else
        Analysis.mismatch (.missingReturn decl.name.name) decl.name.span
        return true
    | _, _ => return false

/-- Resolves bodies one after the other and counts them. -/
def FunctionDecl.resolveBodies : List FunctionDecl → Analysis Nat
  | [] => return 0
  | decl :: rest => do
    let resolved ← decl.resolveBody
    let count ← resolveBodies rest
    return if resolved then count + 1 else count

/-- The functions of an item. -/
def Item.functions : Item → List FunctionDecl
  | .classDecl decl => decl.methods
  | .structDecl _ => []
  | .function decl => [decl]

/-- What resolution has done. -/
structure Resolved where
  /-- Number of bodies. -/
  bodies : Nat
  /-- Number of scopes opened. -/
  scopes : Nat
  deriving DecidableEq, Repr, Inhabited

/-- Resolves a script: its declarations, and then the bodies of its functions. -/
def Script.resolve (script : Script) : Analysis Resolved := do
  let before := (← get).scopes.size
  script.resolveDeclarations
  let bodies ← FunctionDecl.resolveBodies (script.items.flatMap Item.functions)
  let after := (← get).scopes.size
  return ⟨bodies, after - before⟩

end ClassLang
