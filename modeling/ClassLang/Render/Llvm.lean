import ClassLang.Code.Instruction
import ClassLang.Text

/-!
# LLVM text

Generated code as LLVM assembly with typed pointers.  `bool` is `i1`, `void*` is
`i8*`, and records are named types.  Values are written `%t.N` and labels `label.N`:
names of the source contain no dot, so they are never equal to these.
-/

namespace ClassLang.Llvm

/-- A storage type. -/
def type : StorageType → String
  | .void => "void"
  | .bool => "i1"
  | .int bits _ => "i" ++ toString bits
  | .pointer .void => "i8*"
  | .pointer base => type base ++ "*"
  | .array base size => "[" ++ toString size ++ " x " ++ type base ++ "]"
  | .record name => "%" ++ name

/-- The name of a label. -/
def labelName (label : Label) : String := "label." ++ toString label

/-- A label that is jumped to. -/
def labelRef (label : Label) : String := "%" ++ labelName label

/-- An operand without its type. -/
def value : Operand → String
  | .const v ty => Operand.constText v ty
  | .temp id _ => "%t." ++ toString id
  | .named name _ => "%" ++ name
  | .global name _ => "@" ++ name
  | .label label => labelRef label

/-- An operand with its type. -/
def typed (operand : Operand) : String := type operand.ty ++ " " ++ value operand

/-- Items with commas in between. -/
def commas (items : List String) : String := ", ".intercalate items

/-- Parameter types. -/
def params (signature : Signature) : String :=
  commas (signature.params.map type ++ if signature.variadic then ["..."] else [])

/-- A pointer to a function. -/
def functionPointer (signature : Signature) : String :=
  type signature.returnType ++ " (" ++ params signature ++ ")*"

/-- The body of a record type. -/
def recordBody (types : List String) : String :=
  if types.isEmpty then "\x7b\x7d" else "\x7b " ++ commas types ++ " \x7d"

/-- Whether a byte stands for itself in a constant: printing ASCII characters, except
quotes and backslashes. -/
def isPlain (byte : UInt8) : Bool :=
  0x20 ≤ byte && byte ≤ 0x7e && byte != 0x22 && byte != 0x5c

/-- A byte in a constant; all but plain ones are written with two hexadecimal digits. -/
def escapeByte (byte : UInt8) : List Char :=
  if isPlain byte then [Char.ofNat byte.toNat] else '\\' :: Text.hexByte byte

/-- The bytes of a text and a zero byte, as the body of a constant. -/
def escape (text : String) : String :=
  String.ofList ((Text.bytes text ++ [0]).flatMap escapeByte)

/-- Number of bytes of a text with a zero byte. -/
def storageSize (text : String) : String :=
  toString (Text.byteLength text.toList + 1)

/-- A global that holds a text. -/
def textGlobal (name text : String) : String :=
  "@" ++ name ++ " = private unnamed_addr constant [" ++ storageSize text ++ " x i8] c\""
    ++ escape text ++ "\""

/-- The declaration of a struct. -/
def structRecord (name : String) (fields : List RecordField) : String :=
  "%" ++ name ++ " = type " ++ recordBody (fields.map fun field => type field.ty)

/-- The entries of a dispatch record: the name of the class, its parent, and a function
for each slot. -/
def dispatchEntries (record : ClassRecord) : List String :=
  let dispatch := record.dispatch
  let array := "[" ++ storageSize record.name ++ " x i8]"
  let name := "i8* getelementptr inbounds (" ++ array ++ ", " ++ array ++ "* @"
    ++ dispatch.nameGlobal ++ ", i32 0, i32 0)"
  let parent := match dispatch.parentInstance, dispatch.parentRecord with
    | some instanceName, some recordName =>
      "i8* bitcast (%" ++ recordName ++ "* @" ++ instanceName ++ " to i8*)"
    | _, _ => "i8* null"
  let slots := dispatch.slots.map fun slot =>
    "i8* bitcast (" ++ functionPointer slot.signature ++ " @" ++ slot.function ++ " to i8*)"
  name :: parent :: slots

/-- The declaration of a class. -/
def classRecord (record : ClassRecord) : String :=
  let dispatch := record.dispatch
  let head := "\n; class " ++ record.name ++ "\n"
    ++ structRecord record.name record.fields ++ "\n%" ++ dispatch.name ++ " = type "
    ++ recordBody (List.replicate (dispatch.slots.length + 2) "i8*") ++ "\n"
  if record.external then
    head ++ "@" ++ dispatch.instanceName ++ " = external global %" ++ dispatch.name
  else
    head ++ textGlobal dispatch.nameGlobal record.name ++ "\n@" ++ dispatch.instanceName
      ++ " = global %" ++ dispatch.name ++ " \x7b " ++ commas (dispatchEntries record)
      ++ " \x7d"

/-- The name of an arithmetic operation. -/
def arithName (op : ArithOp) (signed : Bool) : String :=
  match op with
  | .add => "add"
  | .sub => "sub"
  | .mul => "mul"
  | .div => if signed then "sdiv" else "udiv"
  | .bitAnd => "and"
  | .bitOr => "or"
  | .bitXor => "xor"

/-- The name of a comparison. -/
def compareName (op : CompareOp) (signed : Bool) : String :=
  match op with
  | .eq => "eq"
  | .ne => "ne"
  | .gt => if signed then "sgt" else "ugt"
  | .lt => if signed then "slt" else "ult"
  | .ge => if signed then "sge" else "uge"
  | .le => if signed then "sle" else "ule"

/-- The definition of a value. -/
def define (dest : Operand) (what : String) : String := value dest ++ " = " ++ what

/-- A call.  A function that takes further arguments needs its full type. -/
def call (dest : Option Operand) (callee : String) (signature : Signature)
    (args : List Operand) : String :=
  let result := type signature.returnType
  let calleeType :=
    if signature.variadic then result ++ " (" ++ params signature ++ ")" else result
  let text := "call " ++ calleeType ++ " @" ++ callee ++ "(" ++ commas (args.map typed) ++ ")"
  match dest with
  | some operand => define operand text
  | none => text

/-- The address of a part of a value. -/
def elementPtr (dest base : Operand) (indices : List Nat) : String :=
  let element := (base.ty.pointee?.map type).getD ""
  define dest ("getelementptr inbounds " ++ element ++ ", " ++ typed base ++ ", "
    ++ commas (indices.map fun index => "i32 " ++ toString index))

/-- The head of a function. -/
def functionHead (name : String) (signature : Signature) (names : List String) : String :=
  let params := (names.zip signature.params).map fun (name, ty) => type ty ++ " %" ++ name
  "\ndefine " ++ type signature.returnType ++ " @" ++ name ++ "(" ++ commas params
    ++ ") \x7b\n"

mutual

/-- An instruction. -/
def instruction : Instruction → String
  | .stringLiteral name text => textGlobal name text
  | .structRecord name fields => structRecord name fields
  | .classRecord record => classRecord record
  | .externalFunction name signature =>
    "declare " ++ type signature.returnType ++ " @" ++ name ++ "(" ++ params signature ++ ")"
  | .function name signature names body =>
    functionHead name signature names ++ bodyLines body ++ "\x7d"
  | .label label => labelName label ++ ":"
  | .alloca dest ty count =>
    define dest ("alloca " ++ type ty ++ ", i32 " ++ toString count)
  | .load dest address => define dest ("load " ++ type dest.ty ++ ", " ++ typed address)
  | .store v address => "store " ++ typed v ++ ", " ++ typed address
  | .elementPtr dest base indices => elementPtr dest base indices
  | .cast dest v => define dest ("bitcast " ++ typed v ++ " to " ++ type dest.ty)
  | .arith op dest left right =>
    define dest (arithName op left.ty.isSigned ++ " " ++ typed left ++ ", " ++ value right)
  | .compare op dest left right =>
    define dest ("icmp " ++ compareName op left.ty.isSigned ++ " " ++ typed left ++ ", "
      ++ value right)
  | .jump label => "br label " ++ labelRef label
  | .branch condition onTrue onFalse =>
    "br " ++ typed condition ++ ", label " ++ labelRef onTrue ++ ", label "
      ++ labelRef onFalse
  | .phi dest incoming =>
    define dest ("phi " ++ type dest.ty ++ " " ++ commas (incoming.map fun (v, label) =>
      "[ " ++ value v ++ ", " ++ labelRef label ++ " ]"))
  | .call dest callee signature args => call dest callee signature args
  | .ret (some v) => "ret " ++ typed v
  | .ret none => "ret void"

/-- The lines of a body; labels are not indented. -/
def bodyLines : List Instruction → String
  | [] => ""
  | i :: rest =>
    (if i.label?.isSome then "" else "  ") ++ instruction i ++ "\n" ++ bodyLines rest

end

/-- A whole unit. -/
def render (unit : CodeUnit) : String :=
  String.join (unit.map fun i => instruction i ++ "\n")

end ClassLang.Llvm
