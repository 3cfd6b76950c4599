import ClassLang.Symbol.Table

/-!
# Scopes

The regions of a unit in which names are bound.  Scopes form a tree: each scope but
the root lies in another one.  A name is looked up from a scope outwards, so an
inner binding hides an outer one.
-/

namespace ClassLang

/-- Number of a scope. -/
abbrev ScopeId := Nat

/-- What a scope belongs to. -/
inductive ScopeKind
  /-- The unit. -/
  | root
  /-- The body of a class. -/
  | classBody (id : SymbolId)
  /-- The parameters of a function. -/
  | function (id : SymbolId)
  /-- A block or a branch inside a function. -/
  | block
  deriving DecidableEq, Repr, Inhabited

/-- A scope and the names bound in it directly. -/
structure Scope where
  kind : ScopeKind
  parent : Option ScopeId
  /-- What each name is bound to. -/
  names : List (String × SymbolId) := []
  /-- The bound symbols, in the order of their definition. -/
  symbols : List SymbolId := []
  deriving DecidableEq, Repr, Inhabited

namespace Scope

/-- What a name is bound to. -/
def get? (scope : Scope) (name : String) : Option SymbolId := scope.names.lookup name

/-- The scope with one more binding. -/
def bind (scope : Scope) (name : String) (symbol : SymbolId) : Scope :=
  { scope with
    names := scope.names ++ [(name, symbol)]
    symbols := scope.symbols ++ [symbol] }

/-- A new binding answers for its own name, unless the name was bound before. -/
theorem get?_bind (scope : Scope) (name other : String) (symbol : SymbolId) :
    (scope.bind name symbol).get? other =
      ((scope.get? other).or (if other = name then some symbol else none)) := by
  simp only [get?, bind, List.lookup_append]
  by_cases h : other = name
  · subst h; simp
  · have different : (other == name) = false := by simpa using h
    simp [List.lookup_cons, h, different]

/-- The scope with a name that was bound to `old` bound to something else. -/
def rebind (scope : Scope) (name : String) (old new : SymbolId) : Scope :=
  { scope with
    names := scope.names.map fun (n, id) => if n = name then (n, new) else (n, id)
    symbols := SymbolTable.replaceFirst old new scope.symbols }

end Scope

/-- All scopes of a unit. -/
structure ScopeTree where
  scopes : List Scope
  deriving DecidableEq, Repr, Inhabited

namespace ScopeTree

/-- The number of the scope of the unit. -/
def root : ScopeId := 0

/-- The tree with the root only. -/
def initial : ScopeTree := ⟨[{ kind := .root, parent := none }]⟩

/-- Number of scopes, which is also the next free number. -/
def size (tree : ScopeTree) : Nat := tree.scopes.length

/-- The tree with one more scope, whose number is `tree.size`. -/
def push (tree : ScopeTree) (parent : ScopeId) (kind : ScopeKind) : ScopeTree :=
  ⟨tree.scopes ++ [{ kind, parent := some parent }]⟩

/-- The scope under a number. -/
def get? (tree : ScopeTree) (id : ScopeId) : Option Scope := tree.scopes[id]?

/-- A new scope takes the next number. -/
@[simp] theorem size_push (tree : ScopeTree) (parent : ScopeId) (kind : ScopeKind) :
    (tree.push parent kind).size = tree.size + 1 := by
  simp [size, push]

/-- The new scope stands under the number it took, and binds nothing. -/
@[simp] theorem get?_push_size (tree : ScopeTree) (parent : ScopeId) (kind : ScopeKind) :
    (tree.push parent kind).get? tree.size = some { kind, parent := some parent } := by
  simp [get?, push, size]

/-- A new scope changes no other one. -/
theorem get?_push_of_lt (tree : ScopeTree) (parent : ScopeId) (kind : ScopeKind)
    {id : ScopeId} (h : id < tree.size) : (tree.push parent kind).get? id = tree.get? id := by
  simpa [get?, push] using List.getElem?_append_left h

/-- What a scope belongs to. -/
def kind (tree : ScopeTree) (id : ScopeId) : ScopeKind :=
  ((tree.get? id).map Scope.kind).getD .root

/-- The scope around a scope. -/
def parent? (tree : ScopeTree) (id : ScopeId) : Option ScopeId :=
  (tree.get? id).bind Scope.parent

/-- The symbols bound in a scope, in the order of their definition. -/
def symbols (tree : ScopeTree) (id : ScopeId) : List SymbolId :=
  ((tree.get? id).map Scope.symbols).getD []

/-- A scope and the scopes around it, in at most `fuel` steps. -/
def chainUpTo (tree : ScopeTree) : Nat → ScopeId → List ScopeId
  | 0, _ => []
  | fuel + 1, id =>
    id :: match tree.parent? id with
      | some parent => tree.chainUpTo fuel parent
      | none => []

/-- A scope and the scopes around it, innermost first. -/
def chain (tree : ScopeTree) (id : ScopeId) : List ScopeId :=
  tree.chainUpTo tree.size id

/-- What a name is bound to in a scope itself. -/
def lookupLocal? (tree : ScopeTree) (id : ScopeId) (name : String) : Option SymbolId :=
  (tree.get? id).bind fun scope => scope.get? name

/-- What a name is bound to in a scope or the nearest scope around it. -/
def lookup? (tree : ScopeTree) (id : ScopeId) (name : String) : Option SymbolId :=
  (tree.chain id).findSome? fun scope => tree.lookupLocal? scope name

/-- Adds a binding to a scope. -/
def bind (tree : ScopeTree) (id : ScopeId) (name : String) (symbol : SymbolId) :
    ScopeTree :=
  ⟨tree.scopes.modify id fun scope => scope.bind name symbol⟩

/-- Binding a name opens no scope. -/
@[simp] theorem size_bind (tree : ScopeTree) (id : ScopeId) (name : String)
    (symbol : SymbolId) : (tree.bind id name symbol).size = tree.size := by
  simp [size, bind]

/-- Binding a name changes only the scope it is bound in. -/
theorem get?_bind (tree : ScopeTree) (id other : ScopeId) (name : String)
    (symbol : SymbolId) :
    (tree.bind id name symbol).get? other =
      if id = other then (tree.get? other).map fun scope => scope.bind name symbol
      else tree.get? other := by
  simp only [get?, bind, List.getElem?_modify]
  split <;> simp

/-- Binds a name in a scope that does not bind it yet. -/
def define (tree : ScopeTree) (id : ScopeId) (name : String) (symbol : SymbolId) :
    Except RegistryError ScopeTree :=
  match tree.lookupLocal? id name with
  | some existing => .error (.alreadyDefined name existing)
  | none => .ok (tree.bind id name symbol)

/-- Binds a name that a scope binds already to something else; gives the symbol it
was bound to. -/
def rebind? (tree : ScopeTree) (id : ScopeId) (name : String) (symbol : SymbolId) :
    Option (SymbolId × ScopeTree) :=
  (tree.lookupLocal? id name).map fun old =>
    (old, ⟨tree.scopes.modify id fun scope => scope.rebind name old symbol⟩)

/-- The function that a scope lies in. -/
def enclosingFunction? (tree : ScopeTree) (id : ScopeId) : Option SymbolId :=
  (tree.chain id).findSome? fun scope =>
    match tree.kind scope with
    | .function f => some f
    | _ => none

/-- The class that a scope lies in. -/
def enclosingClass? (tree : ScopeTree) (id : ScopeId) : Option SymbolId :=
  (tree.chain id).findSome? fun scope =>
    match tree.kind scope with
    | .classBody c => some c
    | _ => none

end ScopeTree

end ClassLang
