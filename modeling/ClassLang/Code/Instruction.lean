import ClassLang.Code.Storage
import ClassLang.Operator

/-!
# Instructions

Generated code is a list of instructions.  A unit consists of declarations: string
literals, records, external functions, and functions with a body.  A body consists of
basic blocks, each of which starts with a label, except the first one, and ends with
a jump, a branch or a return.  Every value is defined by one instruction.
-/

namespace ClassLang

/-- The start of a basic block, unique in its function. -/
abbrev Label := Nat

/-- How messages write a label. -/
def Label.text (label : Label) : String := "label" ++ toString label

/-- What instructions work on. -/
inductive Operand
  /-- An integer or a truth value. -/
  | const (value : Int) (ty : StorageType)
  /-- A value that an instruction defines. -/
  | temp (id : Nat) (ty : StorageType)
  /-- A parameter of the function. -/
  | named (name : String) (ty : StorageType)
  /-- The address of a global. -/
  | global (name : String) (ty : StorageType)
  | label (label : Label)
  deriving DecidableEq, Repr, Inhabited

namespace Operand

/-- A truth value. -/
def ofBool (value : Bool) : Operand := .const (if value then 1 else 0) .bool

/-- The type of the value. -/
def ty : Operand → StorageType
  | .const _ t | .temp _ t | .named _ t | .global _ t => t
  | .label _ => .void

/-- The number of a value that an instruction defines. -/
def tempId? : Operand → Option Nat
  | .temp id _ => some id
  | _ => none

/-- A constant as written: truth values by name, integers in decimal. -/
def constText (value : Int) : StorageType → String
  | .bool => if value = 0 then "false" else "true"
  | _ => toString value

/-- How messages write an operand. -/
def text : Operand → String
  | .const value t => constText value t
  | .temp id _ => "t" ++ toString id
  | .named name _ => name
  | .global name _ => "@" ++ name
  | .label l => Label.text l

end Operand

/-- A field of a record. -/
structure RecordField where
  name : String
  ty : StorageType
  deriving DecidableEq, Repr, Inhabited

/-- A function that a class answers with. -/
structure DispatchSlot where
  /-- Its name in the generated code. -/
  function : String
  signature : Signature
  deriving DecidableEq, Repr, Inhabited

/-- What is known about a class when the program runs: its name, its parent, and a
function for each slot. -/
structure DispatchRecord where
  /-- Name of the record type. -/
  name : String
  /-- Name of the one value of that type. -/
  instanceName : String
  parentInstance : Option String
  parentRecord : Option String
  /-- Name of the global that holds the name of the class. -/
  nameGlobal : String
  slots : List DispatchSlot
  deriving DecidableEq, Repr, Inhabited

/-- The objects of a class and its dispatch record. -/
structure ClassRecord where
  name : String
  /-- Inherited fields, then own ones. -/
  fields : List RecordField
  dispatch : DispatchRecord
  /-- Whether it is defined outside the unit. -/
  external : Bool
  deriving DecidableEq, Repr, Inhabited

/-- One instruction. -/
inductive Instruction
  /-- The bytes of a string literal, followed by a zero byte. -/
  | stringLiteral (name text : String)
  | structRecord (name : String) (fields : List RecordField)
  | classRecord (record : ClassRecord)
  | externalFunction (name : String) (signature : Signature)
  /-- A function with a body; parameters have names, the receiver first. -/
  | function (name : String) (signature : Signature) (paramNames : List String)
      (body : List Instruction)
  | label (label : Label)
  /-- Storage for `count` values; `dest` is its address. -/
  | alloca (dest : Operand) (ty : StorageType) (count : Nat)
  | load (dest address : Operand)
  | store (value address : Operand)
  /-- The address of a part of what `base` points to. -/
  | elementPtr (dest base : Operand) (indices : List Nat)
  /-- A pointer as a pointer of another type. -/
  | cast (dest value : Operand)
  | arith (op : ArithOp) (dest left right : Operand)
  | compare (op : CompareOp) (dest left right : Operand)
  | jump (label : Label)
  | branch (condition : Operand) (onTrue onFalse : Label)
  /-- The value that is paired with the block that control came from. -/
  | phi (dest : Operand) (incoming : List (Operand × Label))
  | call (dest : Option Operand) (callee : String) (signature : Signature)
      (args : List Operand)
  | ret (value : Option Operand)
  deriving Repr, Inhabited

namespace Instruction

/-- The value that the instruction defines. -/
def dest? : Instruction → Option Operand
  | .alloca dest _ _ | .load dest _ | .elementPtr dest _ _ | .cast dest _
  | .arith _ dest _ _ | .compare _ dest _ _ | .phi dest _ => some dest
  | .call dest _ _ _ => dest
  | _ => none

/-- Whether control never goes on to the next instruction. -/
def isTerminator : Instruction → Bool
  | .jump _ | .branch _ _ _ | .ret _ => true
  | _ => false

/-- Whether the instruction leaves the function. -/
def isReturn : Instruction → Bool
  | .ret _ => true
  | _ => false

/-- The label that the instruction places. -/
def label? : Instruction → Option Label
  | .label l => some l
  | _ => none

end Instruction

/-- The generated code of a unit. -/
abbrev CodeUnit := List Instruction

end ClassLang
