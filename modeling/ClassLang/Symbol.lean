import ClassLang.Span
import ClassLang.Text
import ClassLang.Ty

/-!
# Symbols

Everything a name can stand for: classes, structs, functions, fields, arguments,
local variables, the storage of string literals, and the mark for further
arguments.  Symbols refer to each other by number.
-/

namespace ClassLang

/-- Name of the class that every class inherits from. -/
def rootClassName : String := "Object"

/-- Name of the function that every class has for setting up an object. -/
def initName : String := "init"

/-- Name of the receiver inside member functions. -/
def selfName : String := "self"

/-- The order of the fields and of the dispatch slots of a class, inherited ones
included. -/
structure ClassLayout where
  /-- Inherited fields, then own fields; a field is stored at its index. -/
  fields : List SymbolId := []
  /-- The parent's slots, where an own function of the same name takes over, then
  the other own functions. -/
  dispatch : List SymbolId := []
  deriving DecidableEq, Repr, Inhabited

/-- The index a field is stored at, if it belongs to the layout. -/
def ClassLayout.offsetOf? (layout : ClassLayout) (field : SymbolId) : Option Nat :=
  layout.fields.findIdx? (· == field)

/-- A class.  Fields and functions are the ones it declares itself. -/
structure ClassEntry where
  name : String
  /-- Where it is declared; `none` for a class from outside. -/
  span : Option Span
  parent : Option SymbolId := none
  fields : List SymbolId := []
  functions : List SymbolId := []
  /-- Whether it is defined outside the unit. -/
  external : Bool := false
  layout : Option ClassLayout := none
  deriving DecidableEq, Repr, Inhabited

namespace ClassEntry

/-- Name of the record type that holds what is known about the class. -/
def dispatchRecord (entry : ClassEntry) : String := entry.name ++ "Class"

/-- Name of the one value of that record type. -/
def dispatchInstance (entry : ClassEntry) : String := entry.name ++ "ClassObj"

/-- Name of the global that holds the text of the class name. -/
def nameGlobal (entry : ClassEntry) : String := entry.name ++ "Name"

end ClassEntry

/-- A struct: fields only. -/
structure StructEntry where
  name : String
  span : Span
  fields : List SymbolId := []
  deriving DecidableEq, Repr, Inhabited

/-- Properties of a function. -/
structure FunctionTraits where
  /-- Declared in a class; takes the receiver in front of its arguments. -/
  member : Bool := false
  /-- Defined outside the unit. -/
  external : Bool := false
  /-- Takes further arguments after the declared ones. -/
  variadic : Bool := false
  /-- Not written in the source. -/
  implicit : Bool := false
  deriving DecidableEq, Repr, Inhabited

/-- A function. -/
structure FunctionEntry where
  name : String
  /-- Its name in the generated code. -/
  linkName : String
  span : Option Span
  returnType : Ty := .error
  /-- The declared arguments, without the receiver. -/
  arguments : List SymbolId := []
  traits : FunctionTraits := {}
  /-- The class of a member function. -/
  owner : Option SymbolId := none
  /-- Whether return type and arguments are known. -/
  resolved : Bool := false
  deriving DecidableEq, Repr, Inhabited

namespace FunctionEntry

/-- A function outside classes, of which only the name is known. -/
def free (name : String) (span : Span) (traits : FunctionTraits) : FunctionEntry :=
  { name, linkName := name, span := some span, traits }

/-- A member function, of which only the name is known. -/
def memberOf (className : String) (owner : SymbolId) (name : String) (span : Option Span)
    (traits : FunctionTraits) : FunctionEntry :=
  { name, linkName := className ++ "_" ++ name, span,
    traits := { traits with member := true }, owner := some owner }

end FunctionEntry

/-- A field of a class or a struct. -/
structure FieldEntry where
  name : String
  span : Span
  ty : Ty
  /-- The class or struct that declares it. -/
  owner : SymbolId
  /-- Where it is stored, once layouts are known. -/
  offset : Option Nat := none
  deriving DecidableEq, Repr, Inhabited

/-- An argument or a local variable. -/
structure VariableEntry where
  name : String
  span : Span
  ty : Ty
  deriving DecidableEq, Repr, Inhabited

/-- The storage of a string literal: its text and its number among the literals of
the unit. -/
structure LiteralEntry where
  text : String
  index : Nat
  deriving DecidableEq, Repr, Inhabited

namespace LiteralEntry

/-- Name of the global that holds the text. -/
def globalName (entry : LiteralEntry) : String := ".str" ++ toString entry.index

/-- Type of the global that holds the text. -/
def storage (entry : LiteralEntry) : Ty :=
  .stringStorage (Text.byteLength entry.text.toList)

end LiteralEntry

/-- A named part of a program. -/
inductive Symbol
  | classEntry (entry : ClassEntry)
  | structEntry (entry : StructEntry)
  | function (entry : FunctionEntry)
  | field (entry : FieldEntry)
  | argument (entry : VariableEntry)
  | localVariable (entry : VariableEntry)
  | literal (entry : LiteralEntry)
  /-- The mark `...` behind the arguments of a function. -/
  | variadicMarker
  deriving DecidableEq, Repr, Inhabited

namespace Symbol

/-- The name it is known by. -/
def name : Symbol → String
  | .classEntry e => e.name
  | .structEntry e => e.name
  | .function e => e.name
  | .field e => e.name
  | .argument e | .localVariable e => e.name
  | .literal e => e.globalName
  | .variadicMarker => "..."

/-- Where it is declared, if it is declared in the source. -/
def span? : Symbol → Option Span
  | .classEntry e => e.span
  | .structEntry e => some e.span
  | .function e => e.span
  | .field e => some e.span
  | .argument e | .localVariable e => some e.span
  | .literal _ | .variadicMarker => none

/-- What messages call it. -/
def kindName : Symbol → String
  | .classEntry _ => "class"
  | .structEntry _ => "struct"
  | .function _ => "function"
  | .field _ => "field"
  | .argument _ => "argument"
  | .localVariable _ => "local variable"
  | .literal _ => "string literal"
  | .variadicMarker => "variadic marker"

/-- The entry of a class. -/
def class? : Symbol → Option ClassEntry
  | .classEntry e => some e
  | _ => none

/-- The entry of a struct. -/
def struct? : Symbol → Option StructEntry
  | .structEntry e => some e
  | _ => none

/-- The entry of a function. -/
def function? : Symbol → Option FunctionEntry
  | .function e => some e
  | _ => none

/-- The entry of a field. -/
def field? : Symbol → Option FieldEntry
  | .field e => some e
  | _ => none

/-- The entry of an argument or a local variable. -/
def storedVariable? : Symbol → Option VariableEntry
  | .argument e | .localVariable e => some e
  | _ => none

/-- The entry of a string literal. -/
def literal? : Symbol → Option LiteralEntry
  | .literal e => some e
  | _ => none

/-- Whether it is an argument. -/
def isArgument : Symbol → Bool
  | .argument _ => true
  | _ => false

end Symbol

end ClassLang
