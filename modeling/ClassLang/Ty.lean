import ClassLang.Primitive

/-!
# Types

Types after names have been looked up.  Class and struct types are nominal: they
refer to the symbol that declares them, and two of them are equal exactly if they
refer to the same symbol.  `error` is the type of what could not be resolved; it
fits everywhere, so that one mistake is reported once.
-/

namespace ClassLang

/-- Number of a symbol in the symbol table. -/
abbrev SymbolId := Nat

/-- A resolved type. -/
inductive Ty
  | primitive (primitive : Primitive)
  | pointer (base : Ty)
  | array (base : Ty) (size : Nat)
  | function (id : SymbolId)
  | classType (id : SymbolId)
  | structType (id : SymbolId)
  /-- The type of what could not be resolved. -/
  | error
  deriving DecidableEq, Repr, Inhabited

namespace Ty

/-- The type without values. -/
@[match_pattern] abbrev void : Ty := .primitive .void

/-- The type of truth values. -/
@[match_pattern] abbrev bool : Ty := .primitive .bool

/-- The 8-bit integers that texts are made of. -/
abbrev int8 : Ty := .primitive (.int .w8)

/-- The integers that literals have unless something else is wanted. -/
abbrev int32 : Ty := .primitive (.int .w32)

/-- The 32-bit integers without sign. -/
abbrev uint32 : Ty := .primitive (.uint .w32)

/-- The storage of a text of `size` bytes, which ends with a zero byte. -/
def stringStorage (size : Nat) : Ty := .array .int8 (size + 1)

/-- The type pointed to. -/
def pointee? : Ty → Option Ty
  | .pointer base => some base
  | _ => none

/-- The primitive type, if it is one. -/
def primitive? : Ty → Option Primitive
  | .primitive p => some p
  | _ => none

/-- The class whose objects the type points to. -/
def classBehindPointer? : Ty → Option SymbolId
  | .pointer (.classType id) => some id
  | _ => none

/-- The class or struct that a value of the type stores in place: arrays store
their elements, pointers store nothing. -/
def inlineRecord? : Ty → Option SymbolId
  | .classType id | .structType id => some id
  | .array base _ => base.inlineRecord?
  | _ => none

/-- Whether the type is a pointer. -/
def isPointer : Ty → Bool
  | .pointer _ => true
  | _ => false

/-- Whether the type is `void`. -/
def isVoid : Ty → Bool
  | .primitive .void => true
  | _ => false

/-- Whether the type is `bool`. -/
def isBool : Ty → Bool
  | .primitive .bool => true
  | _ => false

/-- Whether the type is an integer type. -/
def isInteger : Ty → Bool
  | .primitive p => p.isInteger
  | _ => false

/-- Whether the type could not be resolved. -/
def isError : Ty → Bool
  | .error => true
  | _ => false

/-- Whether a value of the type may be stored where the second type is wanted.
Types must be equal, below any number of pointers; a part that could not be
resolved fits, and so does anything in its place. -/
def isAssignableTo : Ty → Ty → Bool
  | .error, _ => true
  | _, .error => true
  | .pointer a, .pointer b => a.isAssignableTo b
  | a, b => a == b

/-- The type behind `depth` pointers. -/
def pointers (base : Ty) : Nat → Ty
  | 0 => base
  | depth + 1 => .pointer (base.pointers depth)

end Ty

end ClassLang
