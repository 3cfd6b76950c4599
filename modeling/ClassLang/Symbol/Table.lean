import ClassLang.Symbol

/-!
# The symbol table

The symbols of a unit, each under its number.  Symbols are added at the end and
never removed; entries of classes, structs and functions grow while their
declarations are read.  A table starts with the root class and its members.
-/

namespace ClassLang

/-- What can go wrong in the bookkeeping of symbols and scopes. -/
inductive RegistryError
  /-- A scope binds the name already. -/
  | alreadyDefined (name : String) (existing : SymbolId)
  /-- A class would have to be laid out before itself. -/
  | inheritanceCycle (className : String)
  /-- The symbol is not a function. -/
  | notAFunction (id : SymbolId)
  deriving DecidableEq, Repr, Inhabited

/-- The wording. -/
def RegistryError.message : RegistryError → String
  | .alreadyDefined name _ => "'" ++ name ++ "' is already defined in this scope"
  | .inheritanceCycle name => "class '" ++ name ++ "' inherits from itself"
  | .notAFunction id => "sym#" ++ toString id ++ " is not a function"

/-- All symbols of a unit. -/
structure SymbolTable where
  symbols : List Symbol
  deriving DecidableEq, Repr, Inhabited

namespace SymbolTable

/-- The number of the root class. -/
def rootClass : SymbolId := 0

/-- An external member function of the root class. -/
def rootFunction (name : String) : Symbol :=
  .function { FunctionEntry.memberOf rootClassName rootClass name none { external := true } with
    returnType := .void, resolved := true }

/-- The table with the root class only: the header that every object starts with,
and the functions that set it up and take it down. -/
def initial : SymbolTable where
  symbols :=
    [.classEntry ⟨rootClassName, none, none, [1, 2], [3, 4], true, none⟩,
      .field ⟨"classType", {}, .pointer .void, rootClass, none⟩,
      .field ⟨"refCount", {}, .uint32, rootClass, none⟩,
      rootFunction initName,
      rootFunction "dest"]

/-- Number of symbols, which is also the next free number. -/
def size (table : SymbolTable) : Nat := table.symbols.length

/-- The table with one more symbol, whose number is `table.size`. -/
def add (table : SymbolTable) (symbol : Symbol) : SymbolTable :=
  ⟨table.symbols ++ [symbol]⟩

/-- The symbol under a number. -/
def get? (table : SymbolTable) (id : SymbolId) : Option Symbol := table.symbols[id]?

/-- Adding a symbol takes the next number. -/
@[simp] theorem size_add (table : SymbolTable) (symbol : Symbol) :
    (table.add symbol).size = table.size + 1 := by
  simp [size, add]

/-- The new symbol stands under the number it took. -/
@[simp] theorem get?_add_size (table : SymbolTable) (symbol : Symbol) :
    (table.add symbol).get? table.size = some symbol := by
  simp [get?, add, size]

/-- Adding a symbol changes no other one. -/
theorem get?_add_of_lt (table : SymbolTable) (symbol : Symbol) {id : SymbolId}
    (h : id < table.size) : (table.add symbol).get? id = table.get? id := by
  simpa [get?, add] using List.getElem?_append_left h

/-- A number leads to a symbol exactly if it was given out. -/
theorem isSome_get?_iff (table : SymbolTable) (id : SymbolId) :
    (table.get? id).isSome = true ↔ id < table.size := by
  simp [get?, size]

/-- The name of a symbol. -/
def name (table : SymbolTable) (id : SymbolId) : String :=
  ((table.get? id).map Symbol.name).getD ""

/-- The class under a number. -/
def class? (table : SymbolTable) (id : SymbolId) : Option ClassEntry :=
  (table.get? id).bind Symbol.class?

/-- The struct under a number. -/
def struct? (table : SymbolTable) (id : SymbolId) : Option StructEntry :=
  (table.get? id).bind Symbol.struct?

/-- The function under a number. -/
def function? (table : SymbolTable) (id : SymbolId) : Option FunctionEntry :=
  (table.get? id).bind Symbol.function?

/-- The field under a number. -/
def field? (table : SymbolTable) (id : SymbolId) : Option FieldEntry :=
  (table.get? id).bind Symbol.field?

/-- The argument or local variable under a number. -/
def storedVariable? (table : SymbolTable) (id : SymbolId) : Option VariableEntry :=
  (table.get? id).bind Symbol.storedVariable?

/-- The string literal under a number. -/
def literal? (table : SymbolTable) (id : SymbolId) : Option LiteralEntry :=
  (table.get? id).bind Symbol.literal?

section

variable {table : SymbolTable} {id : SymbolId}

/-- A class is found where its entry stands. -/
theorem class?_eq_some_iff {entry : ClassEntry} :
    table.class? id = some entry ↔ table.get? id = some (.classEntry entry) := by
  refine Option.bind_eq_some_iff.trans ⟨?_, fun h => ⟨_, h, rfl⟩⟩
  rintro ⟨s, hs, hclass⟩
  cases s <;> cases hclass
  exact hs

/-- A number stands for a struct if the symbol is one. -/
theorem struct?_eq_some_iff {entry : StructEntry} :
    table.struct? id = some entry ↔ table.get? id = some (.structEntry entry) := by
  refine Option.bind_eq_some_iff.trans ⟨?_, fun h => ⟨_, h, rfl⟩⟩
  rintro ⟨s, hs, hstruct⟩
  cases s <;> cases hstruct
  exact hs

/-- A number stands for a function if the symbol is one. -/
theorem function?_eq_some_iff {entry : FunctionEntry} :
    table.function? id = some entry ↔ table.get? id = some (.function entry) := by
  refine Option.bind_eq_some_iff.trans ⟨?_, fun h => ⟨_, h, rfl⟩⟩
  rintro ⟨s, hs, hfunction⟩
  cases s <;> cases hfunction
  exact hs

/-- A number stands for a field if the symbol is one. -/
theorem field?_eq_some_iff {entry : FieldEntry} :
    table.field? id = some entry ↔ table.get? id = some (.field entry) := by
  refine Option.bind_eq_some_iff.trans ⟨?_, fun h => ⟨_, h, rfl⟩⟩
  rintro ⟨s, hs, hfield⟩
  cases s <;> cases hfield
  exact hs

/-- A number stands for a literal if the symbol is one. -/
theorem literal?_eq_some_iff {entry : LiteralEntry} :
    table.literal? id = some entry ↔ table.get? id = some (.literal entry) := by
  refine Option.bind_eq_some_iff.trans ⟨?_, fun h => ⟨_, h, rfl⟩⟩
  rintro ⟨s, hs, hliteral⟩
  cases s <;> cases hliteral
  exact hs

/-- Arguments and local variables are stored. -/
theorem storedVariable?_eq_some_iff {entry : VariableEntry} :
    table.storedVariable? id = some entry ↔
      table.get? id = some (.argument entry) ∨ table.get? id = some (.localVariable entry) := by
  refine Option.bind_eq_some_iff.trans ⟨?_, fun h => h.elim (⟨_, ·, rfl⟩) (⟨_, ·, rfl⟩)⟩
  rintro ⟨s, hs, hstored⟩
  cases s <;> cases hstored
  · exact .inl hs
  · exact .inr hs

end

/-- The numbers of the symbols that satisfy a condition, in order. -/
def idsWhere (table : SymbolTable) (p : Symbol → Bool) : List SymbolId :=
  (table.symbols.zipIdx.filter fun (symbol, _) => p symbol).map Prod.snd

/-- The classes, in order, the root class first. -/
def classIds (table : SymbolTable) : List SymbolId :=
  table.idsWhere fun symbol => symbol.class?.isSome

/-- The structs, in order. -/
def structIds (table : SymbolTable) : List SymbolId :=
  table.idsWhere fun symbol => symbol.struct?.isSome

/-- The string literals, in order of first use. -/
def literalIds (table : SymbolTable) : List SymbolId :=
  table.idsWhere fun symbol => symbol.literal?.isSome

/-- Changes the symbol under a number. -/
def modify (table : SymbolTable) (id : SymbolId) (f : Symbol → Symbol) : SymbolTable :=
  ⟨table.symbols.modify id f⟩

/-- Changing symbols gives out no number. -/
@[simp] theorem size_modify (table : SymbolTable) (id : SymbolId) (f : Symbol → Symbol) :
    (table.modify id f).size = table.size := by
  simp [size, modify]

/-- Only the symbol under the number changes. -/
theorem get?_modify (table : SymbolTable) (id other : SymbolId) (f : Symbol → Symbol) :
    (table.modify id f).get? other =
      if id = other then (table.get? other).map f else table.get? other := by
  simp only [get?, modify, List.getElem?_modify]
  split <;> simp

/-- Changes the class under a number; other symbols stay as they are. -/
def modifyClass (table : SymbolTable) (id : SymbolId) (f : ClassEntry → ClassEntry) :
    SymbolTable :=
  table.modify id fun
    | .classEntry entry => .classEntry (f entry)
    | other => other

/-- Gives a class its parent. -/
def setParent (table : SymbolTable) (id parent : SymbolId) : SymbolTable :=
  table.modifyClass id fun entry => { entry with parent := some parent }

/-- Adds a field to a class or a struct. -/
def pushField (table : SymbolTable) (owner field : SymbolId) : SymbolTable :=
  table.modify owner fun
    | .classEntry entry => .classEntry { entry with fields := entry.fields ++ [field] }
    | .structEntry entry => .structEntry { entry with fields := entry.fields ++ [field] }
    | other => other

/-- Adds a function to a class. -/
def pushFunction (table : SymbolTable) (id function : SymbolId) : SymbolTable :=
  table.modifyClass id fun entry =>
    { entry with functions := entry.functions ++ [function] }

/-- A list with the first occurrence of one element exchanged for another. -/
def replaceFirst (old new : SymbolId) : List SymbolId → List SymbolId
  | [] => []
  | id :: rest => if id = old then new :: rest else id :: replaceFirst old new rest

/-- Whether a class has a function. -/
def hasFunction (table : SymbolTable) (id function : SymbolId) : Bool :=
  match table.class? id with
  | some entry => entry.functions.contains function
  | none => false

/-- Puts a function in the place of another one of the class. -/
def replaceFunction (table : SymbolTable) (id old new : SymbolId) : SymbolTable :=
  table.modifyClass id fun entry =>
    { entry with functions := replaceFirst old new entry.functions }

/-- Gives a function its return type and arguments; the first signature given
stays. -/
def setSignature (table : SymbolTable) (id : SymbolId) (returnType : Ty)
    (arguments : List SymbolId) : Except RegistryError SymbolTable :=
  match table.function? id with
  | none => .error (.notAFunction id)
  | some entry =>
    if entry.resolved then .ok table
    else .ok (table.modify id fun _ =>
      .function { entry with returnType, arguments, resolved := true })

/-- The storage of a text, if it has one. -/
def literalFor? (table : SymbolTable) (text : String) : Option SymbolId :=
  table.literalIds.find? fun id => (table.literal? id).any (·.text == text)

/-- The storage of a text, and the table that has it: equal texts share it. -/
def intern (table : SymbolTable) (text : String) : SymbolId × SymbolTable :=
  match table.literalFor? text with
  | some id => (id, table)
  | none => (table.size, table.add (.literal ⟨text, table.literalIds.length⟩))

/-- The type of what a symbol stands for. -/
def symbolType (table : SymbolTable) (id : SymbolId) : Ty :=
  match table.get? id with
  | some (.classEntry _) => .classType id
  | some (.structEntry _) => .structType id
  | some (.function _) => .function id
  | some (.field entry) => entry.ty
  | some (.argument entry) | some (.localVariable entry) => entry.ty
  | some (.literal entry) => entry.storage
  | some .variadicMarker | none => .error

/-- How messages write a type. -/
def typeName (table : SymbolTable) : Ty → String
  | .primitive p => p.name
  | .pointer base => table.typeName base ++ "*"
  | .array base size => table.typeName base ++ "[" ++ toString size ++ "]"
  | .function id | .classType id | .structType id => table.name id
  | .error => "<error>"

section

variable {table : SymbolTable} {id : SymbolId}

/-- A class has the name of its entry. -/
theorem name_of_class? {entry : ClassEntry} (h : table.class? id = some entry) :
    table.name id = entry.name := by
  simp [name, class?_eq_some_iff.1 h, Symbol.name]

/-- A struct has the name of its entry. -/
theorem name_of_struct? {entry : StructEntry} (h : table.struct? id = some entry) :
    table.name id = entry.name := by
  simp [name, struct?_eq_some_iff.1 h, Symbol.name]

/-- A function has the name of its entry. -/
theorem name_of_function? {entry : FunctionEntry} (h : table.function? id = some entry) :
    table.name id = entry.name := by
  simp [name, function?_eq_some_iff.1 h, Symbol.name]

/-- A field has the name of its entry. -/
theorem name_of_field? {entry : FieldEntry} (h : table.field? id = some entry) :
    table.name id = entry.name := by
  simp [name, field?_eq_some_iff.1 h, Symbol.name]

/-- A field has the type of its entry. -/
theorem symbolType_of_field? {entry : FieldEntry} (h : table.field? id = some entry) :
    table.symbolType id = entry.ty := by
  simp [symbolType, field?_eq_some_iff.1 h]

/-- A variable has the type of its entry. -/
theorem symbolType_of_storedVariable? {entry : VariableEntry}
    (h : table.storedVariable? id = some entry) : table.symbolType id = entry.ty := by
  rcases storedVariable?_eq_some_iff.1 h with h | h <;> simp [symbolType, h]

end

end SymbolTable

end ClassLang
