import ClassLang.Context
import ClassLang.Lower.Signature
import ClassLang.Proofs.Meaning.World
import Mathlib.Logic.Function.Basic

/-!
# What a function means

A function of a script is evaluated on its syntax tree, with the symbols and types that were
attached to the nodes, and without any code.

* Statements run in order until one of them returns; a conditional statement runs one of its
  sides.
* `||` evaluates its right side only if the left one is false, and `&&` always both sides.
* Operands and arguments are evaluated from left to right, behind the receiver; an assignment
  evaluates its value before the place it goes to.
* A declaration creates a cell, and then evaluates and stores the initial value.  So does a
  call for every argument that is no pointer; an argument that is a pointer, like the
  receiver, is used as it is.

Evaluation gets stuck (`none`) only on trees that were not bound: a node without the symbol or
the type that it needs, or a value that is not there.
-/

namespace ClassLang

/-- A computation that works on the world.  It is stuck if it gives nothing. -/
abbrev Effect := StateT World Option

namespace Effect

variable {α β : Type} {x : Effect α} {f : α → Effect β} {a : α} {world world' : World}

/-- What is known, or else the computation is stuck. -/
def known (a? : Option α) : Effect α := fun world => a?.map fun a => (a, world)

/-- The value at a place. -/
def load (place : Place) : Effect Value := fun world => some (world.load place, world)

/-- A value is stored at a place. -/
def store (place : Place) (value : Value) : Effect Unit :=
  fun world => some ((), world.store place value)

/-- A new cell. -/
def allocate : Effect Place := fun world => some (world.next, world.allocate)

/-- What a call gives back. -/
def call (env : Environment) (callee : String) (args : List Value) : Effect Value :=
  fun world => some (world.reply env callee args, world.call env callee args)

/-- The value that a computation gives; one that gives none is stuck. -/
def needed (x : Effect (Option Value)) : Effect Value := x >>= known

/-- A value alone leaves the world as it is. -/
theorem pure_apply (a : α) (world : World) : (pure a : Effect α) world = some (a, world) := rfl

/-- Effects are applied one behind the other. -/
theorem bind_apply (h : x world = some (a, world')) : (x >>= f) world = f a world' := by
  change (x world).bind _ = _
  rw [h]
  rfl

/-- The value of an effect is mapped, in the same world. -/
theorem map_apply (g : α → β) (h : x world = some (a, world')) :
    (g <$> x) world = some (g a, world') := by
  change (x world).bind _ = _
  rw [h]
  rfl

/-- What is known is there without an effect. -/
theorem known_bind (a : α) (world : World) : (known (some a) >>= f) world = f a world := rfl

/-- A value that is needed is there if the effect gives one. -/
theorem needed_apply {x : Effect (Option Value)} {value : Value}
    (h : x world = some (some value, world')) : x.needed world = some (value, world') :=
  bind_apply h

end Effect

/-- The value of a key, from lists of keys and values.  A value that is missing is undefined. -/
def valueOf {α : Type} [DecidableEq α] : List α → List Value → α → Value
  | k :: keys, v :: values, key => if k = key then v else valueOf keys values key
  | _, _, _ => .undefined

/-- Names for the same keys find the same values. -/
theorem valueOf_map {α β : Type} [DecidableEq α] [DecidableEq β] (f : α → β) {keys : List α}
    (hnodup : (keys.map f).Nodup) (values : List Value) {key : α} (hkey : key ∈ keys) :
    valueOf (keys.map f) values (f key) = valueOf keys values key := by
  induction keys generalizing values with
  | nil => simp at hkey
  | cons k keys ih =>
      rw [List.map_cons, List.nodup_cons] at hnodup
      cases values with
      | nil => rfl
      | cons v values =>
          by_cases h : k = key
          · simp [valueOf, h]
          · have hmem : key ∈ keys := (List.mem_cons.1 hkey).resolve_left (Ne.symm h)
            have hne : f k ≠ f key := fun heq => hnodup.1 (heq ▸ List.mem_map_of_mem hmem)
            simp [valueOf, h, hne, ih hnodup.2 values hmem]

/-- A call of a function while it runs. -/
structure Activation where
  ctx : Context
  /-- The value of the receiver, if there is one. -/
  self : Value
  /-- The declared arguments. -/
  own : List SymbolId
  /-- Their values. -/
  values : List Value

/-- The cells of the variables that can be seen. -/
abbrev Locals := SymbolId → Option Place

/-- A variable gets a cell. -/
def Locals.bind (locals : Locals) (symbol : SymbolId) (place : Place) : Locals :=
  Function.update locals symbol (some place)

namespace Activation

variable (act : Activation)

/-- The symbols of the unit. -/
def symbols : SymbolTable := act.ctx.symbols

/-- The value of an argument; the only one that is not declared is the receiver. -/
def argument (symbol : SymbolId) : Value :=
  if symbol ∈ act.own then valueOf act.own act.values symbol else act.self

/-- The value of a symbol that is used as it is: an argument that is a pointer. -/
def direct? (symbol : SymbolId) : Option Value :=
  match act.symbols.get? symbol with
  | some (.argument entry) => if entry.ty.isPointer then some (act.argument symbol) else none
  | _ => none

/-- The number of the part that holds a field. -/
def offset? (field : SymbolId) : Option Nat := (act.symbols.field? field).bind FieldEntry.offset

/-- The place of a symbol: the cell of a variable, or the part of the receiver that holds a
field. -/
def place? (locals : Locals) (symbol : SymbolId) : Option Place :=
  match act.symbols.get? symbol with
  | some (.field _) => (act.offset? symbol).map fun index => act.self.place.select [index]
  | _ => locals symbol

/-- The symbol of a node. -/
def symbol (node : NodeId) : Effect SymbolId := .known (act.ctx.bindings.symbol? node)

/-- The value of a literal; a text is the address of its first character. -/
def literal (id : NodeId) : Literal → Effect Value
  | .bool b => return .bool b
  | .int n => return .int n
  | .string _ => do
    let entry ← .known (act.symbols.literal? (← act.symbol id))
    return .pointer { root := .global entry.globalName, path := [0] }

/-- The place of an object, from its value, if it is a pointer, or from the place it names. -/
def base (object : Expr) (value : Effect (Option Value)) (place : Effect Place) :
    Effect Place := do
  let ty ← .known (act.ctx.bindings.type? object.id)
  if ty.isPointer then Value.place <$> value.needed else place

/-- The place of a member of an object. -/
def member (id : NodeId) (base : Effect Place) : Effect Place := do
  let index ← .known (act.offset? (← act.symbol id))
  return (← base).select [index]

/-- The value of an operator, from its operands. -/
def binary (env : Environment) (id : NodeId) (op : BinaryOp) (left right : Effect (Option Value)) :
    Effect (Option Value) := do
  let x ← left.needed
  match op with
  | .or => if x.truth then return some (.bool true) else right
  | .and =>
    let y ← right.needed
    return some (.bool (x.truth && y.truth))
  | .compare op =>
    let y ← right.needed
    return some (op.apply x y)
  | .arith op =>
    let y ← right.needed
    match ← .known (act.ctx.bindings.type? id) with
    | .primitive q => return some (op.apply env (.int q.bits q.isSigned) x y)
    | _ => failure

/-- The receiver as the first argument of a call; only a member function takes one. -/
def selfFor (receiver : Effect Value) : Option SymbolId → Effect (List Value)
  | none => pure []
  | some _ => List.singleton <$> receiver

/-- A call, from its receiver and its arguments. -/
def callOf (env : Environment) (id : NodeId) (receiver : Effect Value)
    (args : Effect (List Value)) : Effect (Option Value) := do
  let entry ← .known (act.symbols.function? (← act.symbol id))
  let self ← selfFor receiver entry.owner
  let values ← args
  let result ← .call env entry.linkName (self ++ values)
  return if entry.returnType.isVoid then none else some result

end Activation

section

variable (env : Environment) (act : Activation) (locals : Locals)

namespace Expr

mutual

/-- The value of an expression; assignments and calls of functions without result have none. -/
def eval : Expr → Effect (Option Value)
  | .literal id value _ => some <$> act.literal id value
  | .name id _ => do
    let symbol ← act.symbol id
    match act.direct? symbol with
    | some value => return some value
    | none => some <$> (do Effect.load (← .known (act.place? locals symbol)))
  | .binary id op left right _ => act.binary env id op left.eval right.eval
  | .assign _ target value _ => do
    let x ← value.eval.needed
    let place ← target.locate
    Effect.store place x
    return none
  | .call id _ args _ => act.callOf env id (pure act.self) (evalAll args)
  | .methodCall id object _ args _ => act.callOf env id object.eval.needed (evalAll args)
  | .member id object _ _ => do
    some <$> (do Effect.load (← act.member id (act.base object object.eval object.locate)))

/-- The place that an expression names. -/
def locate : Expr → Effect Place
  | .name id _ => do Effect.known (act.place? locals (← act.symbol id))
  | .member id object _ _ => act.member id (act.base object object.eval object.locate)
  | _ => failure

/-- The values of arguments. -/
def evalAll : List Expr → Effect (List Value)
  | [] => return []
  | arg :: rest => do
    let x ← arg.eval.needed
    return x :: (← evalAll rest)

end

end Expr

/-- How a statement ends: with the variables that can be seen behind it, or with a return. -/
inductive Outcome
  | goesOn (locals : Locals)
  | returned (value : Option Value)

/-- Behind a block, variables are what they were in front of it. -/
def Outcome.leave (locals : Locals) : Outcome → Outcome
  | .goesOn _ => .goesOn locals
  | .returned value => .returned value

namespace Stmt

mutual

/-- Carries out a statement. -/
def exec (locals : Locals) : Stmt → Effect Outcome
  | .block _ stmts _ => Outcome.leave locals <$> execAll locals stmts
  | .varDecl id _ _ value _ => do
    let symbol ← act.symbol id
    let place ← Effect.allocate
    match value with
    | none => pure ()
    | some e => Effect.store place (← (e.eval env act locals).needed)
    return .goesOn (locals.bind symbol place)
  | .ifThen condition positive _ => do
    if (← (condition.eval env act locals).needed).truth then
      Outcome.leave locals <$> positive.exec locals
    else return .goesOn locals
  | .ifElse condition positive negative _ => do
    if (← (condition.eval env act locals).needed).truth then
      Outcome.leave locals <$> positive.exec locals
    else Outcome.leave locals <$> negative.exec locals
  | .ret none _ => return .returned none
  | .ret (some e) _ => do return .returned (some (← (e.eval env act locals).needed))
  | .expr e _ => do
    let _ ← e.eval env act locals
    return .goesOn locals

/-- Carries out statements until one of them returns. -/
def execAll (locals : Locals) : List Stmt → Effect Outcome
  | [] => return .goesOn locals
  | s :: rest => do
    match ← s.exec locals with
    | .goesOn locals' => execAll locals' rest
    | .returned value => return .returned value

end

end Stmt

/-- Cells for the arguments that are no pointers, filled with their values. -/
def Activation.bindArguments : Locals → List SymbolId → Effect Locals
  | locals, [] => return locals
  | locals, arg :: rest =>
    if (act.symbols.symbolType arg).isPointer then bindArguments locals rest
    else do
      let place ← Effect.allocate
      Effect.store place (act.argument arg)
      bindArguments (locals.bind arg place) rest

/-- The call of a function with values for its parameters, the receiver first. -/
def Activation.ofCall (ctx : Context) (entry : FunctionEntry) (values : List Value) :
    Activation where
  ctx := ctx
  self := if entry.owner.isSome then values.headD .undefined else .undefined
  own := ctx.symbols.declaredArguments entry
  values := if entry.owner.isSome then values.tail else values

/-- **The meaning of a function**: what it gives back, and what it does to the world. -/
def Context.evaluate (ctx : Context) (id : SymbolId) (block : Block) (values : List Value) :
    Effect (Option Value) := do
  let entry ← .known (ctx.symbols.function? id)
  let act := Activation.ofCall ctx entry values
  let locals ← act.bindArguments (fun _ => none) act.own
  match ← Stmt.execAll env act locals block.stmts with
  | .goesOn _ => return none
  | .returned value => return value

end

end ClassLang
