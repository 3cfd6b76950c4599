import ClassLang.Context

/-!
# Declaring top-level names

Before anything is resolved, every class, struct and function at the top level is
bound in the root scope.  So each declaration may refer to any other one, whichever
comes first.  A name that is bound already is an error, and the second declaration
is left out.
-/

namespace ClassLang

/-- How many declarations of each kind were bound. -/
structure Declared where
  classes : Nat := 0
  structs : Nat := 0
  functions : Nat := 0
  deriving DecidableEq, Repr, Inhabited

namespace Item

/-- The name an item declares. -/
def name : Item → Ident
  | .classDecl decl => decl.name
  | .structDecl decl => decl.name
  | .function decl => decl.name

/-- The number of the node of an item. -/
def id : Item → NodeId
  | .classDecl decl => decl.id
  | .structDecl decl => decl.id
  | .function decl => decl.id

/-- The symbol of an item, of which only the name is known. -/
def symbol : Item → Symbol
  | .classDecl decl => .classEntry { name := decl.name.name, span := some decl.name.span }
  | .structDecl decl => .structEntry { name := decl.name.name, span := decl.name.span }
  | .function decl =>
    .function (.free decl.name.name decl.name.span
      { external := decl.body.isExternal, variadic := decl.body.isVariadic })

/-- Binds an item in the root scope and says whether that was possible. -/
def declare (item : Item) : Analysis Bool := do
  let ctx ← get
  match ctx.scopes.lookupLocal? ScopeTree.root item.name.name with
  | some existing =>
    Analysis.report (.duplicate item.name.name (ctx.placeOf existing) item.name.span)
    return false
  | none =>
    let id ← Analysis.addSymbol item.symbol
    let bound ← Analysis.define ScopeTree.root item.name.name id item.name.span
    Analysis.bindSymbol item.id id
    return bound

/-- Counts an item that was bound. -/
def countIn (item : Item) (declared : Declared) : Declared :=
  match item with
  | .classDecl _ => { declared with classes := declared.classes + 1 }
  | .structDecl _ => { declared with structs := declared.structs + 1 }
  | .function _ => { declared with functions := declared.functions + 1 }

/-- Binds items one after the other. -/
def declareAll : List Item → Analysis Declared
  | [] => return {}
  | item :: rest => do
    let bound ← item.declare
    let declared ← declareAll rest
    return if bound then item.countIn declared else declared

end Item

/-- Binds the top-level names of a script. -/
def Script.declare (script : Script) : Analysis Declared := Item.declareAll script.items

end ClassLang
