/-!
# Primitive types

The built-in scalar types: `void`, `bool` and the integers of four widths, signed
and unsigned.  `int` and `uint` are other spellings of the 32-bit integers.
-/

namespace ClassLang

/-- Widths of the integer types. -/
inductive Width
  | w8 | w16 | w32 | w64
  deriving DecidableEq, Repr, Inhabited

/-- Number of bits of a width. -/
def Width.bits : Width → Nat
  | .w8 => 8
  | .w16 => 16
  | .w32 => 32
  | .w64 => 64

/-- A built-in scalar type. -/
inductive Primitive
  | void
  | bool
  | int (width : Width)
  | uint (width : Width)
  deriving DecidableEq, Repr, Inhabited

namespace Primitive

/-- The canonical spelling. -/
def name : Primitive → String
  | .void => "void"
  | .bool => "bool"
  | .int .w8 => "int8"
  | .int .w16 => "int16"
  | .int .w32 => "int32"
  | .int .w64 => "int64"
  | .uint .w8 => "uint8"
  | .uint .w16 => "uint16"
  | .uint .w32 => "uint32"
  | .uint .w64 => "uint64"

/-- Every spelling of a primitive type, with the type it names. -/
def spellings : List (String × Primitive) :=
  [("void", .void), ("bool", .bool), ("int8", .int .w8), ("int16", .int .w16),
    ("int", .int .w32), ("int32", .int .w32), ("int64", .int .w64),
    ("uint8", .uint .w8), ("uint16", .uint .w16), ("uint", .uint .w32),
    ("uint32", .uint .w32), ("uint64", .uint .w64)]

/-- The primitive type a word names, if it names one. -/
def ofName? (word : String) : Option Primitive := spellings.lookup word

/-- Whether values of the type are integers. -/
def isInteger : Primitive → Bool
  | .int _ | .uint _ => true
  | .void | .bool => false

/-- Whether values of the type carry a sign. -/
def isSigned : Primitive → Bool
  | .int _ => true
  | _ => false

/-- Width in bits: `bool` has one, `void` none. -/
def bits : Primitive → Nat
  | .void => 0
  | .bool => 1
  | .int width | .uint width => width.bits

/-- A primitive type is what its canonical spelling names. -/
theorem ofName?_name (p : Primitive) : ofName? p.name = some p := by
  rcases p with _ | _ | w | w <;> (try cases w) <;> rfl

end Primitive

end ClassLang
