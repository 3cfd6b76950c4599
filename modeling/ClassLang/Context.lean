import ClassLang.Diagnostics
import ClassLang.Scope
import ClassLang.Symbol.Members
import ClassLang.Syntax.Tree

/-!
# Compilation contexts

What is known about a unit while it is analysed: its symbols, its scopes, what has
been attached to its syntax nodes, and what there is to say about it.  Analyses are
written as programs that change a context.
-/

namespace ClassLang

/-- What has been attached to syntax nodes.  Each table holds the newest entry for a
node first. -/
structure Bindings where
  /-- The symbol that a node declares or refers to. -/
  symbols : List (NodeId × SymbolId) := []
  /-- The type of an expression. -/
  types : List (NodeId × Ty) := []
  /-- The scope that a node opens. -/
  scopes : List (NodeId × ScopeId) := []
  deriving DecidableEq, Repr, Inhabited

namespace Bindings

/-- The symbol attached to a node. -/
def symbol? (b : Bindings) (node : NodeId) : Option SymbolId := b.symbols.lookup node

/-- The type attached to a node. -/
def type? (b : Bindings) (node : NodeId) : Option Ty := b.types.lookup node

/-- The scope attached to a node. -/
def scope? (b : Bindings) (node : NodeId) : Option ScopeId := b.scopes.lookup node

/-- Attaches a symbol to a node. -/
def bindSymbol (b : Bindings) (node : NodeId) (symbol : SymbolId) : Bindings :=
  { b with symbols := (node, symbol) :: b.symbols }

/-- Attaches a type to a node. -/
def bindType (b : Bindings) (node : NodeId) (ty : Ty) : Bindings :=
  { b with types := (node, ty) :: b.types }

/-- The newest symbol of a node counts. -/
theorem symbol?_bindSymbol (b : Bindings) (node other : NodeId) (symbol : SymbolId) :
    (b.bindSymbol node symbol).symbol? other =
      if other = node then some symbol else b.symbol? other := by
  by_cases h : other = node
  · simp [symbol?, bindSymbol, h]
  · have different : (other == node) = false := by simpa using h
    simp [symbol?, bindSymbol, List.lookup_cons, h, different]

/-- The newest type of a node counts. -/
theorem type?_bindType (b : Bindings) (node other : NodeId) (ty : Ty) :
    (b.bindType node ty).type? other =
      if other = node then some ty else b.type? other := by
  by_cases h : other = node
  · simp [type?, bindType, h]
  · have different : (other == node) = false := by simpa using h
    simp [type?, bindType, List.lookup_cons, h, different]

/-- Attaches a scope to a node. -/
def bindScope (b : Bindings) (node : NodeId) (scope : ScopeId) : Bindings :=
  { b with scopes := (node, scope) :: b.scopes }

end Bindings

/-- What is known about a unit. -/
structure Context where
  symbols : SymbolTable
  scopes : ScopeTree
  bindings : Bindings := {}
  diagnostics : Diagnostics := {}
  deriving DecidableEq, Repr, Inhabited

namespace Context

/-- The context of a unit that nothing is known about: only the root class is
declared. -/
def initial : Context where
  symbols := .initial
  scopes := ⟨[{ kind := .root, parent := none,
                names := [(rootClassName, SymbolTable.rootClass)],
                symbols := [SymbolTable.rootClass] }]⟩

/-- Where a symbol is declared; symbols from outside have no place. -/
def placeOf (ctx : Context) (id : SymbolId) : Span :=
  ((ctx.symbols.get? id).bind Symbol.span?).getD {}

/-- What a name stands for in a scope.  A class body answers with the members of the
class and of its ancestors; every other scope with what it binds. -/
def lookupName? (ctx : Context) (scope : ScopeId) (name : String) : Option SymbolId :=
  (ctx.scopes.chain scope).findSome? fun s =>
    match ctx.scopes.kind s with
    | .classBody id => ctx.symbols.member? id name
    | _ => ctx.scopes.lookupLocal? s name

end Context

/-- A program that changes a context. -/
abbrev Analysis := StateM Context

namespace Analysis

/-- Says that there is a semantic error. -/
def report (error : SemanticError) : Analysis Unit :=
  modify fun ctx => { ctx with diagnostics := ctx.diagnostics.report error }

/-- Says that something does not fit. -/
def mismatch (cause : Mismatch) (span : Span) : Analysis Unit :=
  report (.mismatch cause span)

/-- Adds a symbol and gives its number. -/
def addSymbol (symbol : Symbol) : Analysis SymbolId :=
  modifyGet fun ctx => (ctx.symbols.size, { ctx with symbols := ctx.symbols.add symbol })

/-- Changes the symbol table. -/
def modifySymbols (f : SymbolTable → SymbolTable) : Analysis Unit :=
  modify fun ctx => { ctx with symbols := f ctx.symbols }

/-- Opens a scope and gives its number. -/
def pushScope (parent : ScopeId) (kind : ScopeKind) : Analysis ScopeId :=
  modifyGet fun ctx => (ctx.scopes.size, { ctx with scopes := ctx.scopes.push parent kind })

/-- Attaches a symbol to a node. -/
def bindSymbol (node : NodeId) (symbol : SymbolId) : Analysis Unit :=
  modify fun ctx => { ctx with bindings := ctx.bindings.bindSymbol node symbol }

/-- Attaches a type to a node. -/
def bindType (node : NodeId) (ty : Ty) : Analysis Unit :=
  modify fun ctx => { ctx with bindings := ctx.bindings.bindType node ty }

/-- Attaches a scope to a node. -/
def bindScope (node : NodeId) (scope : ScopeId) : Analysis Unit :=
  modify fun ctx => { ctx with bindings := ctx.bindings.bindScope node scope }

/-- Binds a name in a scope and says whether that was possible; a scope that binds
the name already is an error. -/
def define (scope : ScopeId) (name : String) (symbol : SymbolId) (span : Span) :
    Analysis Bool := do
  let ctx ← get
  match ctx.scopes.lookupLocal? scope name with
  | some existing =>
    report (.duplicate name (ctx.placeOf existing) span)
    return false
  | none =>
    set { ctx with scopes := ctx.scopes.bind scope name symbol }
    return true

/-- The scope that a node opens, which lies in `parent`; a node opens one scope
only. -/
def scopeFor (node : NodeId) (parent : ScopeId) (kind : ScopeKind) : Analysis ScopeId := do
  match (← get).bindings.scope? node with
  | some scope => return scope
  | none =>
    let scope ← pushScope parent kind
    bindScope node scope
    return scope

/-- The symbol attached to a node. -/
def symbolOf? (node : NodeId) : Analysis (Option SymbolId) :=
  return (← get).bindings.symbol? node

end Analysis

end ClassLang
