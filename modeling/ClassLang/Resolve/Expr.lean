import ClassLang.Resolve.Type

/-!
# Resolving expressions

Every expression gets a type, and every name, call and member access the symbol it
stands for.  An integer literal takes the integer type that its surroundings expect,
or that of the other operand.  What cannot be resolved has type `error`, which fits
everywhere.
-/

namespace ClassLang

/-- Whether a literal fits into an integer type; nothing fits into other types. -/
def Primitive.fits (p : Primitive) (value : Nat) : Bool :=
  match p with
  | .int width => value < Nat.pow 2 (width.bits - 1)
  | .uint width => value < Nat.pow 2 width.bits
  | .void | .bool => false

/-- The type of an integer literal: the integer type expected, or `int32`. -/
def Ty.ofLiteral (expected : Option Ty) : Primitive :=
  match expected.bind Ty.primitive? with
  | some p => if p.isInteger then p else .int .w32
  | none => .int .w32

namespace Analysis

/-- How messages write a type. -/
def typeName (ty : Ty) : Analysis String := return (← get).symbols.typeName ty

/-- Reports a value that cannot be stored where another type is wanted. -/
def checkAssignable (actual target : Ty) (span : Span) : Analysis Unit := do
  if actual.isAssignableTo target then return ()
  else mismatch (.notAssignable (← typeName actual) (← typeName target)) span

/-- Reports a value that is not a truth value. -/
def expectBool (ty : Ty) (what : String) (span : Span) : Analysis Unit := do
  if ty.isBool || ty.isError then return ()
  else mismatch (.notBool what (← typeName ty)) span

/-- The common type of two operands that must be integers of one type. -/
def integerPair (left right : Ty) (operator : String) (span : Span) : Analysis Ty := do
  if left.isError || right.isError then return .error
  else if left.isInteger && left == right then return left
  else
    mismatch (.operands operator (← typeName left) (← typeName right)) span
    return .error

/-- Attaches to a node the type that is found for it. -/
def typed (node : NodeId) (find : Analysis Ty) : Analysis Ty := do
  let ty ← find
  bindType node ty
  return ty

end Analysis

/-- The type of a literal. -/
def Literal.resolve (value : Literal) (span : Span) (expected : Option Ty) : Analysis Ty := do
  match value with
  | .bool _ => return .bool
  | .string _ => return .pointer .int8
  | .int n =>
    let p := Ty.ofLiteral expected
    if p.fits n then return .primitive p
    else
      Analysis.mismatch (.literalTooLarge n p.name) span
      return .primitive p

/-- Attaches to a node the variable, argument or field that a name stands for. -/
def Ident.resolveValue (ident : Ident) (node : NodeId) (scope : ScopeId) : Analysis Ty := do
  let ctx ← get
  match ctx.lookupName? scope ident.name with
  | none =>
    Analysis.report (.unresolved ident.name ident.span)
    return .error
  | some id =>
    match ctx.symbols.get? id with
    | some (.argument _) | some (.localVariable _) | some (.field _) =>
      Analysis.bindSymbol node id
      return ctx.symbols.symbolType id
    | some other =>
      Analysis.mismatch (.wrongKind ident.name other.kindName "value") ident.span
      return .error
    | none => return .error

/-- The member of a type with a name; `none` if the type has no members at all. -/
def SymbolTable.memberOf? (symbols : SymbolTable) (object : Ty) (name : String) :
    Option (Option SymbolId) :=
  match object.pointee?.getD object with
  | .classType id => some (symbols.member? id name)
  | .structType id => some (symbols.structField? id name)
  | _ => none

/-- Attaches to a node the field that a name stands for in an object. -/
def Ident.resolveMember (ident : Ident) (node : NodeId) (object : Ty) (isPlace : Bool)
    (objectSpan span : Span) : Analysis Ty := do
  if object.isError then return .error
  else if !object.isPointer && !isPlace then
    Analysis.mismatch .objectNotPlace objectSpan
    return .error
  else
    let symbols := (← get).symbols
    match symbols.memberOf? object ident.name with
    | none =>
      Analysis.mismatch (.noMembers (← Analysis.typeName object)) span
      return .error
    | some none =>
      Analysis.report (.unresolved ident.name ident.span)
      return .error
    | some (some id) =>
      match symbols.field? id with
      | some _ =>
        Analysis.bindSymbol node id
        return symbols.symbolType id
      | none =>
        Analysis.mismatch (.memberIsFunction ident.name) ident.span
        return .error

/-- The function that a call stands for, if it stands for one. -/
def Ident.resolveCallee (ident : Ident) (target : Option SymbolId) :
    Analysis (Option (SymbolId × FunctionEntry)) := do
  let symbols := (← get).symbols
  match target with
  | none =>
    Analysis.report (.unresolved ident.name ident.span)
    return none
  | some id =>
    match symbols.function? id with
    | some entry => return some (id, entry)
    | none =>
      let kind := ((symbols.get? id).map Symbol.kindName).getD ""
      Analysis.mismatch (.wrongKind ident.name kind "function") ident.span
      return none

/-- The declared arguments of a function, without the mark for further ones. -/
def SymbolTable.declaredArguments (symbols : SymbolTable) (entry : FunctionEntry) :
    List SymbolId :=
  entry.arguments.filter fun id => symbols.get? id != some .variadicMarker

/-- Reports a call with the wrong number of arguments. -/
def FunctionEntry.checkCount (entry : FunctionEntry) (expected given : Nat) (span : Span) :
    Analysis Unit := do
  let fits := if entry.traits.variadic then expected ≤ given else given = expected
  if fits then return ()
  else Analysis.mismatch (.argumentCount entry.name entry.traits.variadic expected given) span

/-- Attaches to a call the function it stands for, and gives the types of its parameters
and of its result; `none` if it stands for no function. -/
def Ident.resolveCall (callee : Ident) (node : NodeId) (target : Option SymbolId)
    (given : Nat) (span : Span) : Analysis (Option (List Ty × Ty)) := do
  match ← callee.resolveCallee target with
  | none => return none
  | some (id, entry) =>
    Analysis.bindSymbol node id
    let symbols := (← get).symbols
    let params := (symbols.declaredArguments entry).map symbols.symbolType
    entry.checkCount params.length given span
    return some (params, entry.returnType)

/-- The member that a call of a method stands for: `none` if its receiver points to no
object. -/
def Ident.resolveMethod (callee : Ident) (receiver : Ty) :
    Analysis (Option (Option SymbolId)) := do
  if receiver.isError then return none
  else
    let symbols := (← get).symbols
    match receiver.classBehindPointer?.filter fun id => (symbols.class? id).isSome with
    | some id => return some (symbols.member? id callee.name)
    | none =>
      Analysis.mismatch (.notAReceiver callee.name (← Analysis.typeName receiver)) callee.span
      return none

namespace Expr

/-- Whether the expression is an integer literal. -/
def isIntLiteral : Expr → Bool
  | .literal _ (.int _) _ => true
  | _ => false

/-- Reports an assignment to an argument that is a pointer: it has no storage. -/
def checkTarget (target : Expr) (ty : Ty) : Analysis Unit := do
  match target with
  | .name id ident =>
    let ctx ← get
    let isArgument := ((ctx.bindings.symbol? id).bind ctx.symbols.get?).any Symbol.isArgument
    if isArgument && ty.isPointer then
      Analysis.mismatch (.pointerArgument ident.name) ident.span
  | _ => return ()

mutual

/-- Resolves an expression in a scope and gives its type; `expected` is the type that
its surroundings want, if they want one. -/
def resolve (scope : ScopeId) (expected : Option Ty) : Expr → Analysis Ty
  | .literal id value span => Analysis.typed id (value.resolve span expected)
  | .name id ident => Analysis.typed id (ident.resolveValue id scope)
  | .binary id op left right span => Analysis.typed id do
    let hint := match op with
      | .or | .and => some Ty.bool
      | .arith _ => expected
      | .compare _ => none
    let (leftType, rightType) ←
      if left.isIntLiteral && !right.isIntLiteral then do
        let rightType ← right.resolve scope hint
        let leftType ← left.resolve scope (some rightType)
        pure (leftType, rightType)
      else do
        let leftType ← left.resolve scope hint
        let rightType ← right.resolve scope (some leftType)
        pure (leftType, rightType)
    match op with
    | .or | .and =>
      Analysis.expectBool leftType ("'" ++ op.text ++ "'") left.span
      Analysis.expectBool rightType ("'" ++ op.text ++ "'") right.span
      return .bool
    | .arith op => Analysis.integerPair leftType rightType op.text span
    | .compare op =>
      let _ ← Analysis.integerPair leftType rightType op.text span
      return .bool
  | .assign id target value _ => Analysis.typed id do
    let targetType ← target.resolve scope none
    target.checkTarget targetType
    let valueType ← value.resolve scope (some targetType)
    Analysis.checkAssignable valueType targetType value.span
    return .void
  | .call id callee args span => Analysis.typed id do
    let target := (← get).lookupName? scope callee.name
    match ← callee.resolveCall id target args.length span with
    | some (params, result) => resolveArguments scope params args; return result
    | none => resolveAll scope args; return .error
  | .methodCall id receiver callee args span => Analysis.typed id do
    let receiverType ← receiver.resolve scope none
    match ← callee.resolveMethod receiverType with
    | none => resolveAll scope args; return .error
    | some target =>
      match ← callee.resolveCall id target args.length span with
      | some (params, result) => resolveArguments scope params args; return result
      | none => resolveAll scope args; return .error
  | .member id object ident span => Analysis.typed id do
    let objectType ← object.resolve scope none
    ident.resolveMember id objectType object.isPlace object.span span

/-- Resolves arguments that nothing is known about. -/
def resolveAll (scope : ScopeId) : List Expr → Analysis Unit
  | [] => return ()
  | arg :: rest => do
    let _ ← arg.resolve scope none
    resolveAll scope rest

/-- Resolves arguments against the types of parameters; there may be more arguments
than parameters. -/
def resolveArguments (scope : ScopeId) : List Ty → List Expr → Analysis Unit
  | _, [] => return ()
  | param :: params, arg :: rest => do
    let actual ← arg.resolve scope (some param)
    Analysis.checkAssignable actual param arg.span
    resolveArguments scope params rest
  | [], arg :: rest => do
    let actual ← arg.resolve scope none
    if actual.isVoid then Analysis.mismatch .voidArgument arg.span
    resolveArguments scope [] rest

end

end Expr

end ClassLang
