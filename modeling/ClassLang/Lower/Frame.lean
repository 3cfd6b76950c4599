import ClassLang.Lower.AddressBook
import ClassLang.Lower.BlockStack
import ClassLang.Lower.Signature

/-!
# Frames

What belongs to one function while it is lowered: the instructions so far, the
addresses of its variables, and the numbers of values and labels given out.  Nothing
is carried over from one function to the next.
-/

namespace ClassLang

/-- Numbers given out in a function. -/
structure Counters where
  temps : Nat := 0
  labels : Nat := 0
  deriving DecidableEq, Repr, Inhabited

namespace Counters

/-- A fresh value of a type. -/
def temp (counters : Counters) (ty : StorageType) : Operand × Counters :=
  (.temp counters.temps ty, { counters with temps := counters.temps + 1 })

/-- A fresh label. -/
def label (counters : Counters) : Label × Counters :=
  (counters.labels, { counters with labels := counters.labels + 1 })

end Counters

/-- The function that is being lowered. -/
structure Site where
  ctx : Context
  /-- Its name in the generated code. -/
  function : String
  /-- The class of a member function. -/
  owner : Option SymbolId
  deriving Repr, Inhabited

/-- How far the lowering of a function has come. -/
structure Frame where
  blocks : BlockStack
  addresses : AddressBook
  counters : Counters := {}
  /-- The label of the block being filled. -/
  label : Option Label := none
  deriving Repr, Inhabited

namespace Site

/-- The site of a function. -/
def ofFunction (ctx : Context) (id : SymbolId) : Site where
  ctx := ctx
  function := ctx.symbols.linkName id
  owner := (ctx.symbols.function? id).bind FunctionEntry.owner

/-- The frame at the start of a function. -/
def frame (site : Site) : Frame where
  blocks := { function := site.function }
  addresses := { function := site.function }

/-- The symbols of the unit. -/
def symbols (site : Site) : SymbolTable := site.ctx.symbols

end Site

/-- A program that adds code to a frame. -/
abbrev Lowering := StateT Frame (Except InternalError)

namespace Lowering

/-- Stops at a broken rule. -/
def broken {α : Type} (rule : Invariant) : Lowering α := throw (.invariant rule)

/-- A fresh value of a type. -/
def temp (ty : StorageType) : Lowering Operand :=
  modifyGet fun frame =>
    let (operand, counters) := frame.counters.temp ty
    (operand, { frame with counters })

/-- A fresh label. -/
def freshLabel : Lowering Label :=
  modifyGet fun frame =>
    let (label, counters) := frame.counters.label
    (label, { frame with counters })

/-- Adds an instruction; a label starts the block that is filled from now on. -/
def emit (instruction : Instruction) : Lowering Unit :=
  modify fun frame =>
    { frame with
      blocks := frame.blocks.emit instruction
      label := instruction.label? <|> frame.label }

/-- Whether what would come next cannot be reached. -/
def terminated : Lowering Bool :=
  return (← get).blocks.last?.any Instruction.isTerminator

/-- Fills a list of its own and gives it, together with what was asked for. -/
def collect {α : Type} (fill : Lowering α) : Lowering (α × List Instruction) := do
  modify fun frame => { frame with blocks := frame.blocks.push }
  let result ← fill
  let (list, blocks) ← (← get).blocks.pop
  modify fun frame => { frame with blocks }
  return (result, list)

/-- Adds a list of instructions. -/
def splice (instructions : List Instruction) : Lowering Unit :=
  modify fun frame => { frame with blocks := frame.blocks.splice instructions }

/-- Records where a symbol is. -/
def record (symbol : SymbolId) (place : Operand) : Lowering Unit :=
  modify fun frame => { frame with addresses := frame.addresses.record symbol place }

/-- Storage for a variable, recorded as its address. -/
def allocate (symbol : SymbolId) (ty : StorageType) : Lowering Operand := do
  let dest ← temp (.pointer ty)
  emit (.alloca dest ty 1)
  record symbol dest
  return dest

/-- Loads the value at an address. -/
def load (address : Operand) : Lowering Operand := do
  match address.ty.pointee? with
  | none => broken (.loadsPointer address.text)
  | some ty =>
    let dest ← temp ty
    emit (.load dest address)
    return dest

/-- The label of the block being filled. -/
def currentLabel (site : Site) : Lowering Label := do
  match (← get).label with
  | some label => return label
  | none => broken (.openBlock site.function)

/-- The symbol attached to a node. -/
def symbolOf (site : Site) (node : NodeId) (facet : Facet) (span : Span) :
    Lowering SymbolId :=
  match site.ctx.bindings.symbol? node with
  | some id => return id
  | none => throw (.unboundNode facet span)

/-- The type attached to a node. -/
def typeOf (site : Site) (node : NodeId) (span : Span) : Lowering Ty :=
  match site.ctx.bindings.type? node with
  | some ty => return ty
  | none => throw (.unboundNode .type span)

/-- The storage type of a type. -/
def storage (site : Site) (ty : Ty) : Lowering StorageType :=
  site.symbols.storageType ty

/-- The receiver of the member function being lowered. -/
def receiver (site : Site) (span : Span) : Lowering Operand :=
  match site.owner with
  | some owner => return .named selfName (site.symbols.receiverType owner)
  | none => throw (.unboundNode .receiver span)

/-- The value that an expression gives; an expression without one is a broken rule. -/
def needed (site : Site) (span : Span) (find : Lowering (Option Operand)) :
    Lowering Operand := do
  match ← find with
  | some operand => return operand
  | none => broken (.hasValue span site.function)

end Lowering

end ClassLang
