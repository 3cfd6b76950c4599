import ClassLang.Lower.Stmt
import ClassLang.Syntax.Walk

/-!
# Lowering units

The code of a unit: string literals, one for each text; structs; classes, the root
class first; external functions; and functions with a body, in source order.
-/

namespace ClassLang

namespace Context

/-- The symbol that a declaration was bound to. -/
def declared (ctx : Context) (node : NodeId) (span : Span) :
    Except InternalError SymbolId :=
  match ctx.bindings.symbol? node with
  | some id => .ok id
  | none => .error (.unboundNode .declaration span)

/-- Gives storage to a string literal: equal texts share it. -/
def internLiteral (ctx : Context) (node : NodeId) (text : String) : Context :=
  let (id, symbols) := ctx.symbols.intern text
  { ctx with symbols, bindings := ctx.bindings.bindSymbol node id }

/-- Gives storage to the string literals of a script. -/
def internLiterals (ctx : Context) (script : Script) : Context :=
  script.stringLiterals.foldl (fun ctx (node, text) => ctx.internLiteral node text) ctx

/-- The declarations of the string literals. -/
def literalDeclarations (ctx : Context) : List Instruction :=
  (ctx.symbols.literalIds.filterMap ctx.symbols.literal?).map fun entry =>
    .stringLiteral entry.globalName entry.text

/-- The fields of a record. -/
def recordFields (ctx : Context) (fields : List SymbolId) :
    Except InternalError (List RecordField) :=
  fields.mapM fun field => do
    return ⟨ctx.symbols.name field,
      ← ctx.symbols.storageType (ctx.symbols.symbolType field)⟩

/-- The declaration of a struct. -/
def structDeclaration (ctx : Context) (decl : StructDecl) :
    Except InternalError Instruction := do
  let id ← ctx.declared decl.id decl.name.span
  let fields := ((ctx.symbols.struct? id).map StructEntry.fields).getD []
  return .structRecord decl.name.name (← ctx.recordFields fields)

/-- The dispatch slots of a class. -/
def dispatchSlots (ctx : Context) (functions : List SymbolId) :
    Except InternalError (List DispatchSlot) :=
  functions.mapM fun function => do
    let (signature, _) ← ctx.symbols.signature function
    return ⟨ctx.symbols.linkName function, signature⟩

/-- The declaration of a class, which must have its layout. -/
def classDeclaration (ctx : Context) (id : SymbolId) :
    Except InternalError Instruction := do
  match ctx.symbols.class? id with
  | none => .error (.missingLayout (ctx.symbols.name id))
  | some entry =>
    match entry.layout with
    | none => .error (.missingLayout (ctx.symbols.name id))
    | some layout =>
      let parent := entry.parent.bind ctx.symbols.class?
      let slots ← ctx.dispatchSlots layout.dispatch
      let fields ← ctx.recordFields layout.fields
      let dispatch : DispatchRecord :=
        ⟨entry.dispatchRecord, entry.dispatchInstance,
          parent.map ClassEntry.dispatchInstance, parent.map ClassEntry.dispatchRecord,
          entry.nameGlobal, slots⟩
      return .classRecord ⟨entry.name, fields, dispatch, entry.external⟩

/-- The functions of the classes that are defined outside the unit. -/
def externalMethods (ctx : Context) : List SymbolId :=
  (ctx.symbols.classIds.filterMap ctx.symbols.class?).flatMap fun entry =>
    if entry.external then entry.functions else []

/-- The declaration of an external function. -/
def externalDeclaration (ctx : Context) (function : SymbolId) :
    Except InternalError Instruction := do
  let (signature, _) ← ctx.symbols.signature function
  return .externalFunction (ctx.symbols.linkName function) signature

/-- The declarations of external functions: those of external classes first. -/
def externalDeclarations (ctx : Context) (script : Script) :
    Except InternalError (List Instruction) := do
  let written ← (script.functions.filter (·.body.isExternal)).mapM fun decl =>
    ctx.declared decl.id decl.name.span
  (ctx.externalMethods ++ written).mapM ctx.externalDeclaration

/-- The code of the member functions of a class.  A function without a declaration is
one that every class has. -/
def methodCode (ctx : Context) (decl : ClassDecl) :
    Except InternalError (List Instruction) := do
  let id ← ctx.declared decl.id decl.name.span
  let functions := ((ctx.symbols.class? id).map ClassEntry.functions).getD []
  functions.mapM fun function =>
    let method := decl.methods.find? fun m => ctx.bindings.symbol? m.id == some function
    (Site.ofFunction ctx function).lowerFunction function (method.bind (·.body.block?))

/-- The code of the functions of an item. -/
def itemCode (ctx : Context) : Item → Except InternalError (List Instruction)
  | .classDecl decl => ctx.methodCode decl
  | .structDecl _ => .ok []
  | .function decl =>
    match decl.body with
    | .external _ => .ok []
    | .block b => do
      let function ← ctx.declared decl.id decl.name.span
      return [← (Site.ofFunction ctx function).lowerFunction function (some b)]

/-- The code of a script whose string literals have storage. -/
def unitCode (ctx : Context) (script : Script) : Except InternalError CodeUnit := do
  let structs ← script.structs.mapM ctx.structDeclaration
  let root ← ctx.classDeclaration SymbolTable.rootClass
  let classes ← script.classes.mapM fun decl => do
    ctx.classDeclaration (← ctx.declared decl.id decl.name.span)
  let externals ← ctx.externalDeclarations script
  let functions ← script.items.mapM ctx.itemCode
  return ctx.literalDeclarations ++ structs ++ root :: classes ++ externals
    ++ functions.flatten

/-- The code of a script. -/
def generate (ctx : Context) (script : Script) : Except InternalError CodeUnit :=
  (ctx.internLiterals script).unitCode script

end Context

end ClassLang
