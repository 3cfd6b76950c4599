import ClassLang.Lower.Expr

/-!
# Lowering statements

Statements are lowered in order; what comes behind a statement that always leaves the
function is left out.  A conditional statement branches to a block for each side, and
the sides that go on meet behind it.
-/

namespace ClassLang

open Lowering

/-- Code for a variable declaration: its storage, and its initial value. -/
def Lowering.varDecl (site : Site) (id : NodeId) (name : Ident) (value : Option Expr) :
    Lowering Unit := do
  let symbol ← symbolOf site id .variable name.span
  let ty ← storage site (site.symbols.symbolType symbol)
  let slot ← allocate symbol ty
  match value with
  | none => return ()
  | some e =>
    let operand ← needed site e.span (e.lower site)
    emit (.store operand slot)

/-- Code for one side of a conditional statement, in a list of its own: from its label
to a jump behind the statement, unless the side leaves the function.  Says whether it
goes on. -/
def Lowering.side (label continuation : Label) (fill : Lowering Unit) :
    Lowering (Bool × List Instruction) :=
  collect do
    emit (.label label)
    fill
    let goesOn := !(← terminated)
    if goesOn then emit (.jump continuation)
    return goesOn

/-- Code for a conditional statement without a second side: where its condition does
not hold, control goes on behind it. -/
def Lowering.ifThen (condition : Operand) (positive : Lowering Unit) : Lowering Unit := do
  let onTrue ← freshLabel
  let onFalse ← freshLabel
  let (_, first) ← side onTrue onFalse positive
  let (_, second) ← collect (emit (.label onFalse))
  emit (.branch condition onTrue onFalse)
  splice first
  splice second

/-- Code for a conditional statement with two sides. -/
def Lowering.ifElse (condition : Operand) (positive negative : Lowering Unit) :
    Lowering Unit := do
  let onTrue ← freshLabel
  let onFalse ← freshLabel
  let stop ← freshLabel
  let (firstGoesOn, first) ← side onTrue stop positive
  let (secondGoesOn, second) ← side onFalse stop negative
  emit (.branch condition onTrue onFalse)
  splice first
  splice second
  if firstGoesOn || secondGoesOn then emit (.label stop)

namespace Stmt

mutual

/-- Code for a statement. -/
def lower (site : Site) : Stmt → Lowering Unit
  | .block _ stmts _ => lowerAll site stmts
  | .varDecl id _ name value _ => Lowering.varDecl site id name value
  | .ifThen condition positive _ => do
    let operand ← needed site condition.span (condition.lower site)
    Lowering.ifThen operand (positive.lower site)
  | .ifElse condition positive negative _ => do
    let operand ← needed site condition.span (condition.lower site)
    Lowering.ifElse operand (positive.lower site) (negative.lower site)
  | .ret none _ => emit (.ret none)
  | .ret (some e) _ => do
    let operand ← needed site e.span (e.lower site)
    emit (.ret (some operand))
  | .expr e _ => do
    let _ ← e.lower site

/-- Code for statements, as far as they can be reached. -/
def lowerAll (site : Site) : List Stmt → Lowering Unit
  | [] => return ()
  | s :: rest => do
    if ← terminated then return ()
    else
      s.lower site
      lowerAll site rest

end

end Stmt

/-- Storage for arguments that are not pointers, filled with their values. -/
def Lowering.bindArguments (site : Site) : List SymbolId → Lowering Unit
  | [] => return ()
  | arg :: rest => do
    let ty := site.symbols.symbolType arg
    if ty.isPointer then bindArguments site rest
    else
      let stored ← storage site ty
      let slot ← allocate arg stored
      emit (.store (.named (site.symbols.name arg) stored) slot)
      bindArguments site rest

/-- The code of a function body; a function that is not written in the source has no
body and only returns. -/
def Lowering.body (site : Site) (id : SymbolId) (signature : Signature)
    (block : Option Block) : Lowering Unit := do
  match block with
  | none => pure ()
  | some b =>
    bindArguments site (site.symbols.arguments id)
    Stmt.lowerAll site b.stmts
  if ← terminated then return ()
  else if signature.returnType.isVoid then emit (.ret none)
  else broken (.returns site.function)

/-- The code of a function. -/
def Site.lowerFunction (site : Site) (id : SymbolId) (block : Option Block) :
    Except InternalError Instruction := do
  let (signature, names) ← site.symbols.signature id
  let (_, frame) ← (Lowering.body site id signature block).run site.frame
  return .function site.function signature names (← frame.blocks.finish)

end ClassLang
