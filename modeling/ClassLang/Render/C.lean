import ClassLang.Code.Instruction
import ClassLang.Text

/-!
# C text

Generated code as C.  Bodies become C statements, which have a small syntax of their
own here.  Members of records are named by their index, since a class may declare a
field with the name of an inherited one.

C has no `phi`.  Each label notes in `stp_pred` the block that control came from,
before it makes itself the current one in `stp_block`; a `phi` compares `stp_pred` with
the labels it knows.
-/

namespace ClassLang.C

/-- A storage type.  Arrays occur behind pointers only, where C wants the type of their
elements. -/
def type : StorageType → String
  | .void => "void"
  | .bool => "bool"
  | .int bits true => "int" ++ toString bits ++ "_t"
  | .int bits false => "uint" ++ toString bits ++ "_t"
  | .pointer base => type base ++ "*"
  | .array base _ => type base
  | .record name => "struct " ++ name

/-- A global: dots become underscores, and a name that starts with one gets a prefix of
its own instead. -/
def globalName (name : String) : String :=
  let plain (c : Char) : Char := if c = '.' then '_' else c
  match name.toList with
  | '.' :: rest => "stp_" ++ String.ofList (rest.map plain)
  | all => String.ofList (all.map plain)

/-- The name of a value. -/
def tempName (id : Nat) : String := "stp_t" ++ toString id

/-- The name of a label. -/
def labelName (label : Label) : String := "stp_L" ++ toString label

/-- Expressions. -/
inductive Expr
  | int (value : Int)
  | bool (value : Bool)
  | name (name : String)
  /-- The address of a global. -/
  | global (name : String)
  | deref (e : Expr)
  | address (e : Expr)
  | index (e : Expr) (i : Nat)
  | member (e : Expr) (i : Nat)
  | cast (ty : StorageType) (e : Expr)
  | binary (operator : String) (left right : Expr)
  /-- The first value if control came from the block with the label, the second one
  otherwise. -/
  | select (label : Label) (value otherwise : Expr)
  | call (function : String) (args : List Expr)
  /-- No expression at all. -/
  | nothing
  deriving Repr, Inhabited

namespace Expr

mutual

/-- An expression as written. -/
def text : Expr → String
  | .int v => toString v
  | .bool b => if b then "true" else "false"
  | .name n => n
  | .global n => "(&" ++ n ++ ")"
  | .deref e => "*" ++ e.text
  | .address e => "&" ++ e.text
  | .index e i => e.text ++ "[" ++ toString i ++ "]"
  | .member e i => e.text ++ ".m" ++ toString i
  | .cast ty e => "(" ++ type ty ++ ")" ++ e.text
  | .binary operator left right => left.text ++ " " ++ operator ++ " " ++ right.text
  | .select label v otherwise =>
    "stp_pred == " ++ toString label ++ " ? " ++ v.text ++ " : " ++ otherwise.text
  | .call function args => function ++ "(" ++ ", ".intercalate (texts args) ++ ")"
  | .nothing => ""

/-- Expressions as written. -/
def texts : List Expr → List String
  | [] => []
  | e :: rest => e.text :: texts rest

end

/-- An operand. -/
def ofOperand : Operand → Expr
  | .const v .bool => .bool (v != 0)
  | .const v _ => .int v
  | .temp id _ => .name (tempName id)
  | .named n _ => .name n
  | .global n _ => .global (globalName n)
  | .label l => .name (labelName l)

/-- The part of a value of some type that indices lead to: an index goes into what a
pointer points to, into an array, or into a record.  Further indices mean nothing. -/
def path (e : Expr) : Option StorageType → List Nat → Expr
  | _, [] => e
  | some (.pointer base), i :: rest => path (.index e i) (some base) rest
  | some (.array base _), i :: rest => path (.index e i) (some base) rest
  | some (.record _), i :: rest => path (.member e i) none rest
  | _, _ :: rest => path e none rest

/-- The value that is paired with the block that control came from; the last one needs
no test. -/
def merge : List (Operand × Label) → Expr
  | [] => .nothing
  | [(v, _)] => ofOperand v
  | (v, label) :: rest => .select label (ofOperand v) (merge rest)

end Expr

/-- Statements. -/
inductive Stmt
  /-- A label that notes where control came from. -/
  | mark (label : Label)
  /-- An array of `count` values, and a pointer to it. -/
  | slot (ty : StorageType) (count : Nat) (pointerType : StorageType) (dest : Expr)
  | define (ty : StorageType) (dest value : Expr)
  | assign (place value : Expr)
  | goto (label : Label)
  | branch (condition : Expr) (onTrue onFalse : Label)
  | expr (e : Expr)
  | ret (value : Option Expr)
  deriving Repr, Inhabited

/-- A statement as written. -/
def Stmt.text : Stmt → String
  | .mark label =>
    labelName label ++ ": stp_pred = stp_block; stp_block = " ++ toString label ++ ";"
  | .slot ty count pointerType dest =>
    type ty ++ " " ++ dest.text ++ "_slot[" ++ toString count ++ "]; " ++ type pointerType
      ++ " " ++ dest.text ++ " = " ++ dest.text ++ "_slot;"
  | .define ty dest v => type ty ++ " " ++ dest.text ++ " = " ++ v.text ++ ";"
  | .assign place v => place.text ++ " = " ++ v.text ++ ";"
  | .goto label => "goto " ++ labelName label ++ ";"
  | .branch condition onTrue onFalse =>
    "if (" ++ condition.text ++ ") goto " ++ labelName onTrue ++ "; else goto "
      ++ labelName onFalse ++ ";"
  | .expr e => e.text ++ ";"
  | .ret (some v) => "return " ++ v.text ++ ";"
  | .ret none => "return;"

/-- The definition of a value. -/
def define (dest : Operand) (value : Expr) : Stmt :=
  .define dest.ty (.ofOperand dest) value

/-- The statement for an instruction of a body; declarations have none. -/
def stmt? : Instruction → Option Stmt
  | .label label => some (.mark label)
  | .alloca dest ty count => some (.slot ty count dest.ty (.ofOperand dest))
  | .load dest address => some (define dest (.deref (.ofOperand address)))
  | .store v address => some (.assign (.deref (.ofOperand address)) (.ofOperand v))
  | .elementPtr dest base indices =>
    some (define dest (.address (.path (.ofOperand base) (some base.ty) indices)))
  | .cast dest v => some (define dest (.cast dest.ty (.ofOperand v)))
  | .arith op dest left right =>
    some (define dest (.binary op.text (.ofOperand left) (.ofOperand right)))
  | .compare op dest left right =>
    some (define dest (.binary op.text (.ofOperand left) (.ofOperand right)))
  | .jump label => some (.goto label)
  | .branch condition onTrue onFalse =>
    some (.branch (.ofOperand condition) onTrue onFalse)
  | .phi dest incoming => some (define dest (.merge incoming))
  | .call (some dest) callee _ args =>
    some (define dest (.call callee (args.map .ofOperand)))
  | .call none callee _ args => some (.expr (.call callee (args.map .ofOperand)))
  | .ret v => some (.ret (v.map .ofOperand))
  | _ => none

/-- A list of parameters, which is never left empty. -/
def paramList (params : List String) : String :=
  if params.isEmpty then "void" else ", ".intercalate params

/-- A function declaration. -/
def prototype (name : String) (signature : Signature) : String :=
  let params := signature.params.map type ++ if signature.variadic then ["..."] else []
  type signature.returnType ++ " " ++ name ++ "(" ++ paramList params ++ ");"

/-- The members of a record, from an index on. -/
def members : Nat → List RecordField → String
  | _, [] => ""
  | index, field :: rest =>
    "    " ++ type field.ty ++ " m" ++ toString index ++ "; /* " ++ field.name ++ " */\n"
      ++ members (index + 1) rest

/-- A record type; one without fields gets a member that is never used. -/
def structRecord (name : String) (fields : List RecordField) : String :=
  "struct " ++ name ++ " \x7b\n"
    ++ (if fields.isEmpty then "    char stp_empty;\n" else members 0 fields) ++ "\x7d;"

/-- A byte in a string literal: printing ASCII characters stand for themselves, except
quotes and backslashes, and all other bytes are written with three octal digits. -/
def escapeByte (byte : UInt8) : List Char :=
  if byte = 0x22 then ['\\', '"']
  else if byte = 0x5c then ['\\', '\\']
  else if 0x20 ≤ byte && byte ≤ 0x7e then [Char.ofNat byte.toNat]
  else '\\' :: Text.octalByte byte

/-- The bytes of a text, as the body of a string literal. -/
def escape (text : String) : String :=
  String.ofList ((Text.bytes text).flatMap escapeByte)

/-- A global that holds a text. -/
def textGlobal (name text : String) : String :=
  "static int8_t " ++ globalName name ++ "[" ++ toString (Text.byteLength text.toList + 1)
    ++ "] = \"" ++ escape text ++ "\";"

/-- The value of a dispatch record. -/
def dispatchValue (record : ClassRecord) : String :=
  let dispatch := record.dispatch
  let parent := match dispatch.parentInstance with
    | some instanceName => "&" ++ instanceName
    | none => "0"
  let slots := dispatch.slots.map fun slot => "(void*)" ++ slot.function
  "\x7b \"" ++ escape record.name ++ "\", " ++ parent ++ ", \x7b " ++ ", ".intercalate slots
    ++ " \x7d \x7d"

/-- The declaration of a class. -/
def classRecord (record : ClassRecord) : String :=
  let dispatch := record.dispatch
  let head := "\n/* class " ++ record.name ++ " */\n" ++ structRecord record.name record.fields
    ++ "\nstruct " ++ dispatch.name
    ++ " \x7b\n    const char* name;\n    void* parent;\n    void* slots["
    ++ toString dispatch.slots.length ++ "];\n\x7d;\n"
    ++ String.join (dispatch.slots.map fun slot =>
      prototype slot.function slot.signature ++ "\n")
  let variableHead := "struct " ++ dispatch.name ++ " " ++ dispatch.instanceName
  if record.external then head ++ "extern " ++ variableHead ++ ";"
  else head ++ variableHead ++ " = " ++ dispatchValue record ++ ";"

/-- The head of a function. -/
def functionHead (name : String) (signature : Signature) (names : List String) : String :=
  let params := (names.zip signature.params).map fun (name, ty) => type ty ++ " " ++ name
  "\n" ++ type signature.returnType ++ " " ++ name ++ "(" ++ paramList params
    ++ ") \x7b\n    int stp_pred = -1, stp_block = -1;\n"

mutual

/-- An instruction. -/
def instruction : Instruction → String
  | .stringLiteral name text => textGlobal name text
  | .structRecord name fields => structRecord name fields
  | .classRecord record => classRecord record
  | .externalFunction name signature => prototype name signature
  | .function name signature names body =>
    functionHead name signature names ++ bodyLines body ++ "\x7d"
  | other => ((stmt? other).map Stmt.text).getD ""

/-- The lines of a body; labels are not indented. -/
def bodyLines : List Instruction → String
  | [] => ""
  | i :: rest =>
    (if i.label?.isSome then "" else "    ") ++ instruction i ++ "\n" ++ bodyLines rest

end

/-- The records that an instruction declares, announced ahead of their definition. -/
def forward : Instruction → String
  | .structRecord name _ => "struct " ++ name ++ ";\n"
  | .classRecord record =>
    "struct " ++ record.name ++ ";\nstruct " ++ record.dispatch.name ++ ";\n"
  | _ => ""

/-- The function that an instruction defines, announced ahead of its definition. -/
def forwardFunction : Instruction → String
  | .function name signature _ _ => prototype name signature ++ "\n"
  | _ => ""

/-- What comes in front of a unit. -/
def prologue (unit : CodeUnit) : String :=
  "#include <stdbool.h>\n#include <stdint.h>\n\n" ++ String.join (unit.map forward)
    ++ String.join (unit.map forwardFunction) ++ "\n"

/-- A whole unit. -/
def render (unit : CodeUnit) : String :=
  prologue unit ++ String.join (unit.map fun i => instruction i ++ "\n")

end ClassLang.C
