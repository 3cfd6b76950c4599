/-!
# Storage types

The types of values in generated code.  Unlike source types they name records by
their names in the generated code, so that code can be read without a symbol table.
-/

namespace ClassLang

/-- The type of a value in generated code. -/
inductive StorageType
  | void
  | bool
  | int (bits : Nat) (signed : Bool)
  | pointer (base : StorageType)
  | array (base : StorageType) (size : Nat)
  /-- A struct, or the objects of a class. -/
  | record (name : String)
  deriving DecidableEq, Repr, Inhabited

namespace StorageType

/-- The bytes that texts are made of. -/
abbrev int8 : StorageType := .int 8 true

/-- The type pointed to. -/
def pointee? : StorageType → Option StorageType
  | .pointer base => some base
  | _ => none

/-- Whether values carry a sign. -/
def isSigned : StorageType → Bool
  | .int _ signed => signed
  | _ => false

/-- Whether there are no values. -/
def isVoid : StorageType → Bool
  | .void => true
  | _ => false

/-- How messages write a storage type. -/
def text : StorageType → String
  | .void => "void"
  | .bool => "bool"
  | .int bits true => "int" ++ toString bits
  | .int bits false => "uint" ++ toString bits
  | .pointer base => base.text ++ "*"
  | .array base size => base.text ++ "[" ++ toString size ++ "]"
  | .record name => name

end StorageType

/-- What a function takes and gives back.  A member function takes its receiver
first. -/
structure Signature where
  returnType : StorageType
  params : List StorageType
  variadic : Bool := false
  deriving DecidableEq, Repr, Inhabited

end ClassLang
