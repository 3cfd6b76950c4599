import ClassLang.Code.Storage
import ClassLang.Error.Internal
import ClassLang.Resolve.Expr

/-!
# Lowering types and signatures

Source types become storage types, and functions get the signature they have in
generated code: member functions take a pointer to their receiver first.
-/

namespace ClassLang.SymbolTable

/-- The storage type of a type.  Functions and unresolved types have none. -/
def storageType (symbols : SymbolTable) : Ty → Except InternalError StorageType
  | .primitive .void => .ok .void
  | .primitive .bool => .ok .bool
  | .primitive p => .ok (.int p.bits p.isSigned)
  | .pointer base => return .pointer (← symbols.storageType base)
  | .array base size => return .array (← symbols.storageType base) size
  | .classType id | .structType id => .ok (.record (symbols.name id))
  | .function id => .error (.invariant (.storesFunction (symbols.name id)))
  | .error => .error (.invariant .resolvedType)

/-- The type of the receiver of a member function. -/
def receiverType (symbols : SymbolTable) (id : SymbolId) : StorageType :=
  .pointer (.record (symbols.name id))

/-- The declared arguments of a function, without the mark for further ones. -/
def arguments (symbols : SymbolTable) (id : SymbolId) : List SymbolId :=
  match symbols.function? id with
  | some entry => symbols.declaredArguments entry
  | none => []

/-- The signature of a function and the names of its parameters. -/
def signature (symbols : SymbolTable) (id : SymbolId) :
    Except InternalError (Signature × List String) := do
  match symbols.function? id with
  | none => .error (.invariant (.isFunction (symbols.name id)))
  | some entry =>
    let args := symbols.arguments id
    let types ← args.mapM fun arg => symbols.storageType (symbols.symbolType arg)
    let names := args.map symbols.name
    let returnType ← symbols.storageType entry.returnType
    match entry.owner with
    | some owner =>
      return (⟨returnType, symbols.receiverType owner :: types, entry.traits.variadic⟩,
        selfName :: names)
    | none => return (⟨returnType, types, entry.traits.variadic⟩, names)

/-- The name of a function in generated code. -/
def linkName (symbols : SymbolTable) (id : SymbolId) : String :=
  match symbols.function? id with
  | some entry => entry.linkName
  | none => symbols.name id

end ClassLang.SymbolTable
