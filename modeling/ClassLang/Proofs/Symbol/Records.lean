import ClassLang.Lower.Signature
import Mathlib.Logic.Relation

/-!
# Records and inheritance

What the lowering relies on when it reaches into an object: the order in which a class or a
struct stores its fields, the number a field is stored at, and the relation between a class
and the classes it inherits from; and which functions there are to call.
-/

namespace ClassLang.SymbolTable

/-- A class is another one or inherits from it. -/
def Inherits (table : SymbolTable) : SymbolId → SymbolId → Prop :=
  Relation.ReflTransGen fun id parent => table.parent? id = some parent

/-- The fields that a class or a struct stores, in order. -/
def slots (table : SymbolTable) (id : SymbolId) : List SymbolId :=
  match table.get? id with
  | some (.classEntry entry) => (entry.layout.map ClassLayout.fields).getD []
  | some (.structEntry entry) => entry.fields
  | _ => []

/-- A field is stored in a record at an index, and a value of a type is stored there. -/
structure FieldAt (table : SymbolTable) (id field : SymbolId) (index : Nat)
    (ty : StorageType) : Prop where
  slot : (table.slots id)[index]? = some field
  entry : ∃ entry, table.field? field = some entry ∧ entry.offset = some index ∧
    table.storageType entry.ty = .ok ty

/-- A function that can be called: one outside classes, or one that its class lists. -/
def Callable (table : SymbolTable) (function : SymbolId) : Prop :=
  (∃ entry, table.function? function = some entry ∧ entry.owner = none) ∨
    ∃ id entry, table.class? id = some entry ∧ function ∈ entry.functions

/-- An argument that is a pointer: it is used as it is and has no storage. -/
def PointerArgument (table : SymbolTable) (id : SymbolId) : Prop :=
  ∃ entry, table.get? id = some (.argument entry) ∧ entry.ty.isPointer = true

end ClassLang.SymbolTable
