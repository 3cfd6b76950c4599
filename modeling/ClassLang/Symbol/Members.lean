import ClassLang.Symbol.Table

/-!
# Inheritance, members and containment

The questions about a symbol table that follow references from symbol to symbol:
the ancestors of a class, the member a name stands for in a class, and whether a
record would have to store a copy of itself.  References may form cycles, so each
walk remembers where it has been; the size of the table bounds it.
-/

namespace ClassLang.SymbolTable

/-- The parent of a class. -/
def parent? (table : SymbolTable) (id : SymbolId) : Option SymbolId :=
  (table.class? id).bind ClassEntry.parent

/-- A symbol followed by its ancestors, as long as they are not among those seen
already, in at most `fuel` steps. -/
def ancestorsUpTo (table : SymbolTable) : Nat → List SymbolId → SymbolId → List SymbolId
  | 0, _, _ => []
  | fuel + 1, seen, id =>
    if seen.contains id then []
    else
      id :: match table.parent? id with
        | some parent => table.ancestorsUpTo fuel (id :: seen) parent
        | none => []

/-- A class followed by its ancestors, nearest first.  On a cycle, each class
occurs once. -/
def ancestors (table : SymbolTable) (id : SymbolId) : List SymbolId :=
  table.ancestorsUpTo (table.size + 1) [] id

/-- Whether a class is another one or inherits from it. -/
def isSubclassOf (table : SymbolTable) (id ancestor : SymbolId) : Bool :=
  (table.ancestors id).contains ancestor

/-- The records stored directly inside a record: the parent of a class, and the
fields that hold a record in place. -/
def inlineRecords (table : SymbolTable) (id : SymbolId) : List SymbolId :=
  let stored (fields : List SymbolId) : List SymbolId :=
    fields.filterMap fun f => (table.field? f).bind fun entry => entry.ty.inlineRecord?
  match table.get? id with
  | some (.classEntry entry) => entry.parent.toList ++ stored entry.fields
  | some (.structEntry entry) => stored entry.fields
  | _ => []

/-- Looks for a record among those stored inside it, at any depth.  `pending` are the
records still to be looked at, the one to look at next first, and `seen` are those that
were looked at.  There is no answer if `steps` are too few. -/
def searchStored (table : SymbolTable) (record : SymbolId) :
    Nat → List SymbolId → List SymbolId → Option Bool
  | 0, _, _ => none
  | _ + 1, _, [] => some false
  | steps + 1, seen, next :: pending =>
    if next = record then some true
    else if seen.contains next then table.searchStored record steps seen pending
    else table.searchStored record steps (next :: seen)
      ((table.inlineRecords next).reverse ++ pending)

/-- Enough steps for a search: what a record stores directly is put among the pending
ones at most once. -/
def searchSteps (table : SymbolTable) (record : SymbolId) : Nat :=
  (table.inlineRecords record).length +
    ((List.range table.size).flatMap table.inlineRecords).length + 1

/-- Whether a record would have to store a copy of itself. -/
def containsItself (table : SymbolTable) (record : SymbolId) : Bool :=
  (table.searchStored record (table.searchSteps record) []
    (table.inlineRecords record).reverse).getD false

/-- The member of a name that a class declares itself; fields come before
functions. -/
def ownMember? (table : SymbolTable) (id : SymbolId) (name : String) : Option SymbolId :=
  (table.class? id).bind fun entry =>
    (entry.fields ++ entry.functions).find? fun member => table.name member == name

/-- The member a name stands for in a class: its own, or the nearest ancestor's. -/
def member? (table : SymbolTable) (id : SymbolId) (name : String) : Option SymbolId :=
  (table.ancestors id).findSome? fun ancestor => table.ownMember? ancestor name

/-- The field a name stands for in a struct. -/
def structField? (table : SymbolTable) (id : SymbolId) (name : String) :
    Option SymbolId :=
  (table.struct? id).bind fun entry =>
    entry.fields.find? fun field => table.name field == name

/-- The layout of a class, once it is known. -/
def layout? (table : SymbolTable) (id : SymbolId) : Option ClassLayout :=
  (table.class? id).bind ClassEntry.layout

/-- Where a field is stored, once layouts are known. -/
def fieldOffset? (table : SymbolTable) (field : SymbolId) : Option Nat :=
  (table.field? field).bind FieldEntry.offset

end ClassLang.SymbolTable
