import ClassLang.Resolve.Type

/-!
# Resolving declarations

The first half of resolution: parents of classes, fields, member functions and
signatures.  Afterwards two rules are checked that concern the unit as a whole: no
record stores itself, and no two names of the generated code are equal.
-/

namespace ClassLang

/-- The parent that an `extends` clause names.  A clause that names no class, or would
make the class its own ancestor, is reported, and the parent is the root class. -/
def ClassDecl.resolveParent (decl : ClassDecl) (id : SymbolId) : Analysis SymbolId := do
  match decl.parent with
  | none => return SymbolTable.rootClass
  | some ident =>
    let ctx ← get
    match ctx.scopes.lookup? ScopeTree.root ident.name with
    | none =>
      Analysis.report (.unresolved ident.name ident.span)
      return SymbolTable.rootClass
    | some parent =>
      match ctx.symbols.class? parent with
      | none =>
        let kind := ((ctx.symbols.get? parent).map Symbol.kindName).getD ""
        Analysis.mismatch (.wrongKind ident.name kind "class") ident.span
        return SymbolTable.rootClass
      | some _ =>
        if ctx.symbols.isSubclassOf parent id then
          Analysis.mismatch (.circularInheritance decl.name.name ident.name) ident.span
          return SymbolTable.rootClass
        else
          return parent

/-- Gives a class its parent. -/
def ClassDecl.bindParent (decl : ClassDecl) : Analysis Unit := do
  match ← Analysis.symbolOf? decl.id with
  | none => return ()
  | some id =>
    let parent ← decl.resolveParent id
    Analysis.modifySymbols fun symbols => symbols.setParent id parent

/-- Adds the symbol of a field. -/
def FieldDecl.add (field : FieldDecl) (ty : Ty) (owner : SymbolId) : Analysis SymbolId := do
  let id ← Analysis.addSymbol
    (.field { name := field.name.name, span := field.name.span, ty, owner })
  Analysis.bindSymbol field.id id
  return id

/-- Resolves a field of a struct; a second field of a name is an error and left out. -/
def FieldDecl.declareInStruct (field : FieldDecl) (owner : SymbolId) : Analysis Unit := do
  let ty ← field.ty.resolveStorage ScopeTree.root "field"
  let ctx ← get
  match ctx.symbols.structField? owner field.name.name with
  | some existing =>
    Analysis.report (.duplicate field.name.name (ctx.placeOf existing) field.name.span)
  | none =>
    let id ← field.add ty owner
    Analysis.modifySymbols fun symbols => symbols.pushField owner id

/-- Resolves the fields of a struct. -/
def StructDecl.declareFields (decl : StructDecl) : Analysis Unit := do
  match ← Analysis.symbolOf? decl.id with
  | none => return ()
  | some id => decl.fields.forM fun field => field.declareInStruct id

/-- Resolves a field of a class; a name that the class binds already is an error. -/
def FieldDecl.declareInClass (field : FieldDecl) (owner : SymbolId) (scope : ScopeId) :
    Analysis Unit := do
  let ty ← field.ty.resolveStorage scope "field"
  let id ← field.add ty owner
  if ← Analysis.define scope field.name.name id field.name.span then
    Analysis.modifySymbols fun symbols => symbols.pushField owner id

/-- Resolves parameters and binds them in the scope of their function. -/
def Param.declareAll (scope : ScopeId) : List Param → Analysis (List SymbolId)
  | [] => return []
  | param :: rest => do
    let ty ← param.ty.resolveStorage scope "parameter"
    let id ← Analysis.addSymbol
      (.argument { name := param.name.name, span := param.name.span, ty })
    Analysis.bindSymbol param.id id
    let _ ← Analysis.define scope param.name.name id param.name.span
    return id :: (← declareAll scope rest)

/-- Resolves the return type and the parameters of a function.  A member function
also binds its receiver. -/
def FunctionDecl.resolveSignature (decl : FunctionDecl) (id : SymbolId) (scope : ScopeId)
    (owner : Option SymbolId) : Analysis Unit := do
  let returnType ← decl.returnType.resolve scope
  match owner with
  | none => pure ()
  | some owner =>
    let receiver ← Analysis.addSymbol
      (.argument { name := selfName, span := decl.name.span, ty := .pointer (.classType owner) })
    let _ ← Analysis.define scope selfName receiver decl.name.span
  let declared ← Param.declareAll scope decl.params
  let arguments ←
    if decl.body.isVariadic then
      pure (declared ++ [← Analysis.addSymbol .variadicMarker])
    else pure declared
  match (← get).symbols.setSignature id returnType arguments with
  | .ok symbols => modify fun ctx => { ctx with symbols }
  | .error error => Analysis.mismatch (.signature error) decl.name.span

/-- Gives a class a function `void init()` that does nothing, so that every object can
be set up. -/
def ClassDecl.installInit (decl : ClassDecl) (id : SymbolId) (scope : ScopeId) :
    Analysis Unit := do
  let entry := FunctionEntry.memberOf decl.name.name id initName none { implicit := true }
  let init ← Analysis.addSymbol (.function { entry with returnType := .void, resolved := true })
  if ← Analysis.define scope initName init decl.name.span then
    Analysis.modifySymbols fun symbols => symbols.pushFunction id init

/-- Binds a member function called `init`.  A plain `void init()` takes the place of
the one that every class starts with; any other `init` collides with it. -/
def FunctionDecl.bindInit (method : FunctionDecl) (id owner : SymbolId) (scope : ScopeId)
    (classPlace : Span) : Analysis Unit := do
  let ctx ← get
  let plain := method.returnType.isVoid && method.params.isEmpty
  let existing := ctx.scopes.lookupLocal? scope initName
  let isImplicit := (existing.bind ctx.symbols.function?).any (·.traits.implicit)
  match existing with
  | some old =>
    if plain && isImplicit then
      match ctx.scopes.rebind? scope initName id with
      | some (_, scopes) => modify fun ctx => { ctx with scopes }
      | none => pure ()
      Analysis.modifySymbols fun symbols => symbols.replaceFunction owner old id
    else
      let first := ((ctx.symbols.get? old).bind Symbol.span?).getD classPlace
      Analysis.report (.duplicate initName first method.name.span)
  | none => Analysis.report (.duplicate initName classPlace method.name.span)

/-- Declares a member function. -/
def FunctionDecl.declareInClass (method : FunctionDecl) (decl : ClassDecl)
    (owner : SymbolId) (classScope : ScopeId) : Analysis Unit := do
  let id ← Analysis.addSymbol (.function
    (.memberOf decl.name.name owner method.name.name (some method.name.span) {}))
  Analysis.bindSymbol method.id id
  let scope ← Analysis.scopeFor method.id classScope (.function id)
  method.resolveSignature id scope (some owner)
  if method.name.name = initName then
    method.bindInit id owner classScope decl.name.span
  else if ← Analysis.define classScope method.name.name id method.name.span then
    Analysis.modifySymbols fun symbols => symbols.pushFunction owner id

/-- Declares a member of a class. -/
def ClassMember.declare (member : ClassMember) (decl : ClassDecl) (owner : SymbolId)
    (scope : ScopeId) : Analysis Unit :=
  match member with
  | .field f => f.declareInClass owner scope
  | .method f => f.declareInClass decl owner scope

/-- Declares the members of a class. -/
def ClassDecl.declareMembers (decl : ClassDecl) : Analysis Unit := do
  match ← Analysis.symbolOf? decl.id with
  | none => return ()
  | some id =>
    let scope ← Analysis.scopeFor decl.id ScopeTree.root (.classBody id)
    decl.installInit id scope
    decl.members.forM fun member => member.declare decl id scope

/-- Resolves the signature of a function outside classes. -/
def FunctionDecl.declareFree (decl : FunctionDecl) : Analysis Unit := do
  match ← Analysis.symbolOf? decl.id with
  | none => return ()
  | some id =>
    let scope ← Analysis.scopeFor decl.id ScopeTree.root (.function id)
    decl.resolveSignature id scope none

/-- Reports a record that stores itself: it would have no finite size. -/
def Ident.checkContainment (name : Ident) (node : NodeId) : Analysis Unit := do
  let ctx ← get
  match ctx.bindings.symbol? node with
  | none => return ()
  | some id =>
    if ctx.symbols.containsItself id then
      Analysis.mismatch (.containsItself name.name) name.span

/-- Reports a class or struct that stores itself. -/
def Item.checkContainment (item : Item) : Analysis Unit :=
  match item with
  | .classDecl decl => decl.name.checkContainment decl.id
  | .structDecl decl => decl.name.checkContainment decl.id
  | .function _ => return ()

/-- A name of the generated code.  Record types have names of their own; functions and
other globals share theirs. -/
structure LinkName where
  isRecord : Bool
  name : String
  span : Span
  deriving DecidableEq, Repr, Inhabited

namespace LinkName

/-- The names that a class brings into the generated code. -/
def ofClass (ctx : Context) (id : SymbolId) (span : Span) : List LinkName :=
  match ctx.symbols.class? id with
  | none => []
  | some entry =>
    [⟨true, entry.name, span⟩, ⟨true, entry.dispatchRecord, span⟩,
      ⟨false, entry.dispatchInstance, span⟩, ⟨false, entry.nameGlobal, span⟩] ++
    (entry.functions.filterMap ctx.symbols.function?).map fun f =>
      ⟨false, f.linkName, f.span.getD span⟩

/-- The names that an item brings into the generated code. -/
def ofItem (ctx : Context) : Item → List LinkName
  | .classDecl decl =>
    match ctx.bindings.symbol? decl.id with
    | some id => ofClass ctx id decl.name.span
    | none => []
  | .structDecl decl => [⟨true, decl.name.name, decl.name.span⟩]
  | .function decl => [⟨false, decl.name.name, decl.name.span⟩]

/-- The names of the generated code of a script, in order. -/
def ofScript (ctx : Context) (script : Script) : List LinkName :=
  ofClass ctx SymbolTable.rootClass {} ++ script.items.flatMap (ofItem ctx)

/-- The names that are taken already when they come, with the place they were taken
first. -/
def clashes (taken : List LinkName) : List LinkName → List SemanticError
  | [] => []
  | link :: rest =>
    match taken.find? fun t => t.isRecord == link.isRecord && t.name == link.name with
    | some first => .duplicate link.name first.span link.span :: clashes taken rest
    | none => clashes (taken ++ [link]) rest

end LinkName

/-- Resolves the declarations of a script. -/
def Script.resolveDeclarations (script : Script) : Analysis Unit := do
  script.classes.forM ClassDecl.bindParent
  script.structs.forM StructDecl.declareFields
  script.classes.forM ClassDecl.declareMembers
  script.functions.forM FunctionDecl.declareFree
  script.items.forM Item.checkContainment
  let ctx ← get
  (LinkName.clashes [] (LinkName.ofScript ctx script)).forM Analysis.report

end ClassLang
