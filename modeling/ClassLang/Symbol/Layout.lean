import ClassLang.Symbol.Members

/-!
# Layouts

Once every class has its parent, its fields and its functions, each class gets the
order in which its fields are stored and its functions are dispatched.  A layout
extends the layout of the parent, so parents come first.
-/

namespace ClassLang.SymbolTable

/-- Puts a function into the dispatch slots: into the slot of a function of the
same name, or behind the last one. -/
def dispatchWith (table : SymbolTable) (slots : List SymbolId) (function : SymbolId) :
    List SymbolId :=
  match slots.findIdx? fun slot => table.name slot == table.name function with
  | some index => slots.set index function
  | none => slots ++ [function]

/-- The layout of a class that extends a layout. -/
def extendLayout (table : SymbolTable) (entry : ClassEntry) (parent : ClassLayout) :
    ClassLayout where
  fields := parent.fields ++ entry.fields
  dispatch := entry.functions.foldl table.dispatchWith parent.dispatch

/-- Gives each field of a list its index as offset, unless it has one already: an
inherited field keeps its place. -/
def assignOffsets (table : SymbolTable) (fields : List SymbolId) : SymbolTable :=
  fields.zipIdx.foldl
    (fun table (field, index) =>
      table.modify field fun
        | .field entry => .field { entry with offset := entry.offset <|> some index }
        | other => other)
    table

/-- Lays out a class, its ancestors first, in at most `fuel` steps; `visiting`
holds the classes that wait for it.  A class that waits for itself is an error. -/
def layOutUpTo : Nat → List SymbolId → SymbolId → SymbolTable →
    Except RegistryError SymbolTable
  | 0, _, _, table => .ok table
  | fuel + 1, visiting, id, table =>
    match table.class? id with
    | none => .ok table
    | some entry =>
      if entry.layout.isSome then .ok table
      else if visiting.contains id then .error (.inheritanceCycle entry.name)
      else do
        let (parentLayout, table) ← match entry.parent with
          | none => pure ({}, table)
          | some parent =>
            let table ← layOutUpTo fuel (id :: visiting) parent table
            pure ((table.layout? parent).getD {}, table)
        let layout := table.extendLayout entry parentLayout
        let table := table.assignOffsets layout.fields
        return table.modifyClass id fun entry => { entry with layout := some layout }

/-- Lays out a class, its ancestors first. -/
def layOut (table : SymbolTable) (id : SymbolId) : Except RegistryError SymbolTable :=
  layOutUpTo (table.size + 1) [] id table

/-- Lays out classes one after the other, up to the first that cannot be. -/
def layOutAll : List SymbolId → SymbolTable → Option RegistryError × SymbolTable
  | [], table => (none, table)
  | id :: rest, table =>
    match table.layOut id with
    | .ok table => layOutAll rest table
    | .error error => (some error, table)

/-- Gives the fields of structs their offsets. -/
def layOutStructs (table : SymbolTable) : SymbolTable :=
  table.structIds.foldl
    (fun table id => table.assignOffsets (((table.struct? id).map StructEntry.fields).getD []))
    table

/-- Lays out all classes and then all structs.  If a class inherits from itself,
what was laid out before it stays so. -/
def finalizeLayouts (table : SymbolTable) : Option RegistryError × SymbolTable :=
  match layOutAll table.classIds table with
  | (none, table) => (none, table.layOutStructs)
  | (some error, table) => (some error, table)

end ClassLang.SymbolTable
