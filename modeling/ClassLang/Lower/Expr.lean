import ClassLang.Lower.Frame

/-!
# Lowering expressions

An expression is lowered to code that computes its value; assignments and calls of
functions without result have none.  Where a place is wanted, the code computes its
address instead.  Operands and arguments are evaluated from left to right, behind the
receiver; an assignment evaluates its value before the place it goes to.
-/

namespace ClassLang

open Lowering

/-- The address of a field of the object at an address. -/
def Lowering.fieldAddress (site : Site) (base : Operand) (field : SymbolId) :
    Lowering Operand := do
  match site.symbols.field? field with
  | none => broken (.isField (site.symbols.name field))
  | some entry =>
    match entry.offset with
    | none => throw (.missingLayout (site.symbols.name entry.owner))
    | some offset =>
      let ty ← storage site entry.ty
      let dest ← temp (.pointer ty)
      emit (.elementPtr dest base [0, offset])
      return dest

/-- The address of a variable, an argument, or a field of the receiver. -/
def Lowering.symbolAddress (site : Site) (id : SymbolId) (span : Span) :
    Lowering Operand := do
  match site.symbols.get? id with
  | some (.argument entry) =>
    if entry.ty.isPointer then broken (.pointerArgument entry.name)
    else (← get).addresses.current id site.symbols
  | some (.localVariable _) => (← get).addresses.current id site.symbols
  | some (.field _) =>
    let self ← receiver site span
    fieldAddress site self id
  | some other => broken (.hasStorage other.kindName other.name)
  | none => broken (.hasStorage "" "")

/-- The value of a literal. -/
def Literal.lower (site : Site) (value : Literal) (id : NodeId) (span : Span) :
    Lowering Operand := do
  match value with
  | .bool b => return .ofBool b
  | .int n =>
    let ty ← typeOf site id span
    return .const n (← storage site ty)
  | .string _ =>
    let symbol ← symbolOf site id .stringLiteral span
    match site.symbols.literal? symbol with
    | none => broken (.isLiteral (site.symbols.name symbol))
    | some entry =>
      let ty ← storage site entry.storage
      let dest ← temp (.pointer .int8)
      emit (.elementPtr dest (.global entry.globalName (.pointer ty)) [0, 0])
      record symbol dest
      return dest

/-- The value of a name.  An argument that is a pointer is used as it is; everything
else is loaded. -/
def Ident.lower (site : Site) (ident : Ident) (id : NodeId) : Lowering Operand := do
  let symbol ← symbolOf site id .symbol ident.span
  let load' : Lowering Operand := do load (← symbolAddress site symbol ident.span)
  match site.symbols.get? symbol with
  | some (.argument entry) =>
    if entry.ty.isPointer then return .named entry.name (← storage site entry.ty)
    else load'
  | _ => load'

/-- The address of a member of an object, whose type was found before: the object is a
pointer, with a value, or a place, with an address. -/
def Ident.lowerMember (site : Site) (ident : Ident) (id : NodeId) (object : Expr)
    (value address : Lowering Operand) : Lowering Operand := do
  let field ← symbolOf site id .field ident.span
  let ty ← typeOf site object.id object.span
  let base ← if ty.isPointer then value else address
  fieldAddress site base field

/-- Code for `left || right`: the right side runs only if the left one is false.

```text
    jump start
start:
    left
    branch left, stop, rest
rest:
    right
    jump stop
stop:
    phi
```
-/
def Lowering.shortCircuit (site : Site) (left right : Lowering Operand) :
    Lowering Operand := do
  let start ← freshLabel
  let rest ← freshLabel
  let stop ← freshLabel
  emit (.jump start)
  emit (.label start)
  let leftValue ← left
  let leftBlock ← currentLabel site
  emit (.branch leftValue stop rest)
  emit (.label rest)
  let rightValue ← right
  let rightBlock ← currentLabel site
  emit (.jump stop)
  emit (.label stop)
  let dest ← temp .bool
  emit (.phi dest [(leftValue, leftBlock), (rightValue, rightBlock)])
  return dest

/-- Code for an operator, from the code of its operands. -/
def BinaryOp.lower (site : Site) (op : BinaryOp) (id : NodeId) (span : Span)
    (left right : Lowering Operand) : Lowering Operand := do
  match op with
  | .or => shortCircuit site left right
  | .and =>
    let leftValue ← left
    let rightValue ← right
    let dest ← temp .bool
    emit (.arith .bitAnd dest leftValue rightValue)
    return dest
  | .arith op =>
    let leftValue ← left
    let rightValue ← right
    let ty ← typeOf site id span
    let dest ← temp (← storage site ty)
    emit (.arith op dest leftValue rightValue)
    return dest
  | .compare op =>
    let leftValue ← left
    let rightValue ← right
    let dest ← temp .bool
    emit (.compare op dest leftValue rightValue)
    return dest

/-- A receiver as an object of the class that declares a function. -/
def Lowering.upcast (site : Site) (receiver : Operand) (actual : Option SymbolId)
    (owner : SymbolId) : Lowering Operand := do
  if actual = some owner then return receiver
  else
    let dest ← temp (site.symbols.receiverType owner)
    emit (.cast dest receiver)
    return dest

/-- Code for a call, from the code of its receiver and of its arguments.  Only a member
function takes a receiver. -/
def Ident.lowerCall (site : Site) (callee : Ident) (id : NodeId)
    (receiver : Lowering (Operand × Option SymbolId)) (args : Lowering (List Operand)) :
    Lowering (Option Operand) := do
  let function ← symbolOf site id .function callee.span
  match site.symbols.function? function with
  | none => broken (.isFunction (site.symbols.name function))
  | some entry =>
    let (signature, _) ← site.symbols.signature function
    let self ← match entry.owner with
      | none => pure []
      | some owner =>
        let (operand, actual) ← receiver
        pure [← upcast site operand actual owner]
    let values ← args
    let dest ←
      if signature.returnType.isVoid then pure none
      else some <$> temp signature.returnType
    emit (.call dest entry.linkName signature (self ++ values))
    return dest

namespace Expr

mutual

/-- Code for an expression: its value, if it has one. -/
def lower (site : Site) : Expr → Lowering (Option Operand)
  | .literal id value span => some <$> value.lower site id span
  | .name id ident => some <$> ident.lower site id
  | .binary id op left right span =>
    some <$> op.lower site id span (needed site left.span (left.lower site))
      (needed site right.span (right.lower site))
  | .assign _ target value _ => do
    let operand ← needed site value.span (value.lower site)
    let address ← target.lowerAddress site
    emit (.store operand address)
    return none
  | .call id callee args span =>
    callee.lowerCall site id (return (← receiver site span, site.owner))
      (lowerAll site args)
  | .methodCall id object callee args _ =>
    let self : Lowering (Operand × Option SymbolId) := do
      let ty ← typeOf site object.id object.span
      return (← needed site object.span (object.lower site), ty.classBehindPointer?)
    callee.lowerCall site id self (lowerAll site args)
  | .member id object ident _ => do
    let address ← ident.lowerMember site id object
      (needed site object.span (object.lower site)) (object.lowerAddress site)
    some <$> load address

/-- Code for the place that an expression names: its address. -/
def lowerAddress (site : Site) : Expr → Lowering Operand
  | .name id ident => do
    let symbol ← symbolOf site id .symbol ident.span
    symbolAddress site symbol ident.span
  | .member id object ident _ =>
    ident.lowerMember site id object
      (needed site object.span (object.lower site)) (object.lowerAddress site)
  | .literal _ _ span | .binary _ _ _ _ span | .assign _ _ _ span | .call _ _ _ span
  | .methodCall _ _ _ _ span => broken (.isPlace span)

/-- Code for arguments, from left to right. -/
def lowerAll (site : Site) : List Expr → Lowering (List Operand)
  | [] => return []
  | arg :: rest => do
    let operand ← needed site arg.span (arg.lower site)
    return operand :: (← lowerAll site rest)

end

end Expr

end ClassLang
