import ClassLang.Proofs.Code.Region
import ClassLang.Proofs.Meaning.World
import Mathlib.Logic.Function.Basic
import Mathlib.Logic.Relation

/-!
# Running code

A machine for the instructions of a function body.  It stands at an instruction, knows which
block it is in and from which block it came there, holds the values that instructions have
defined, and works on the world.  Jumps and branches go to a label, `phi` takes the value that
is paired with the block that control came from, and everything else goes on with the next
instruction.  The machine stops at a return (`Machine.Returns`), and is stuck where it cannot
go on.
-/

namespace ClassLang

/-- The values that instructions have defined, and the world. -/
structure RunState where
  temps : Nat → Value
  world : World

/-- The value of a constant: a truth value or an integer. -/
def Value.ofConst (n : Int) : StorageType → Value
  | .bool => .bool (n != 0)
  | _ => .int n

/-- The part of an object that a list of indices leads to; the first one counts objects. -/
def Place.element (place : Place) : List Nat → Place
  | 0 :: path => place.select path
  | _ => { root := .nowhere }

/-- Whether an instruction is plain can be decided. -/
instance : DecidablePred Instruction.IsPlain
  | .alloca .. | .load .. | .store .. | .elementPtr .. | .cast .. | .arith .. | .compare ..
  | .call .. | .ret .. => isTrue trivial
  | .label .. | .jump .. | .branch .. | .phi .. | .stringLiteral .. | .structRecord ..
  | .classRecord .. | .externalFunction .. | .function .. => isFalse id

section

variable (env : Environment) (input : String → Value)

namespace RunState

/-- The value of an operand. -/
def value (s : RunState) : Operand → Value
  | .const n ty => .ofConst n ty
  | .temp id _ => s.temps id
  | .named name _ => input name
  | .global name _ => .pointer { root := .global name }
  | .label _ => .undefined

/-- The state behind the definition of a value. -/
def define (s : RunState) (dest : Operand) (value : Value) : RunState :=
  match dest with
  | .temp id _ => { s with temps := Function.update s.temps id value }
  | _ => s

/-- What a plain instruction does, unless it returns. -/
def perform (s : RunState) : Instruction → RunState
  | .alloca dest _ _ => { s with world := s.world.allocate }.define dest (.pointer s.world.next)
  | .load dest address => s.define dest (s.world.load (s.value input address).place)
  | .store value address =>
    { s with world := s.world.store (s.value input address).place (s.value input value) }
  | .elementPtr dest base indices =>
    s.define dest (.pointer ((s.value input base).place.element indices))
  | .cast dest value => s.define dest (s.value input value)
  | .arith op dest left right =>
    s.define dest (op.apply env dest.ty (s.value input left) (s.value input right))
  | .compare op dest left right =>
    s.define dest (op.apply (s.value input left) (s.value input right))
  | .call dest callee _ args =>
    let values := args.map (s.value input)
    let behind : RunState := { s with world := s.world.call env callee values }
    match dest with
    | some dest => behind.define dest (s.world.reply env callee values)
    | none => behind
  | _ => s

end RunState

/-- Where the machine stands. -/
structure Config where
  /-- The instruction that comes next, and everything behind it. -/
  rest : List Instruction
  /-- The label of the block that control is in; the first block has none. -/
  block : Option Label
  /-- The block that control came from. -/
  came : Option Label
  state : RunState

/-- What one step leads to. -/
inductive Progress
  | goesOn (config : Config)
  | returned (value : Option Value) (world : World)
  | stuck

/-- The body from a label on. -/
def seek (body : List Instruction) (l : Label) : List Instruction :=
  body.dropWhile fun i => i.label? != some l

/-- One step in a body. -/
def Config.step (body : List Instruction) (c : Config) : Progress :=
  match c.rest with
  | [] => .stuck
  | .label l :: rest => .goesOn { c with rest, block := some l, came := c.block }
  | .jump l :: _ => .goesOn { c with rest := seek body l }
  | .branch condition onTrue onFalse :: _ =>
    let l := if (c.state.value input condition).truth then onTrue else onFalse
    .goesOn { c with rest := seek body l }
  | .phi dest incoming :: rest =>
    match incoming.find? fun pair => some pair.2 == c.came with
    | some pair =>
      .goesOn { c with rest, state := c.state.define dest (c.state.value input pair.1) }
    | none => .stuck
  | .ret value :: _ => .returned (value.map (c.state.value input)) c.state.world
  | i :: rest =>
    if i.IsPlain then .goesOn { c with rest, state := c.state.perform env input i } else .stuck

/-- The machine runs to a return, which gives a value and leaves a world. -/
inductive Returns (body : List Instruction) : Config → Option Value → World → Prop
  | done {c : Config} {value : Option Value} {world : World}
      (h : c.step env input body = .returned value world) : Returns body c value world
  | next {c c' : Config} {value : Option Value} {world : World}
      (h : c.step env input body = .goesOn c') (hrest : Returns body c' value world) :
      Returns body c value world

/-- The machine gets from one place to another. -/
def Reaches (body : List Instruction) : Config → Config → Prop :=
  Relation.ReflTransGen fun c c' => c.step env input body = .goesOn c'

end

section

variable (input : String → Value) (s : RunState) (name : String) (ty : StorageType)

@[simp] theorem RunState.value_temp (id : Nat) : s.value input (.temp id ty) = s.temps id := rfl

@[simp] theorem RunState.value_named : s.value input (.named name ty) = input name := rfl

@[simp] theorem RunState.value_global :
    s.value input (.global name ty) = .pointer { root := .global name } := rfl

@[simp] theorem Value.place_pointer (place : Place) : (Value.pointer place).place = place := rfl

@[simp] theorem Place.element_zero (place : Place) (path : List Nat) :
    place.element (0 :: path) = place.select path := rfl

end

variable {env : Environment} {input : String → Value} {body : List Instruction}
  {c c' : Config} {value value' : Option Value} {world world' : World}

/-- A run has one result. -/
theorem Returns.unique (h : Returns env input body c value world)
    (h' : Returns env input body c value' world') : value = value' ∧ world = world' := by
  induction h with
  | done hstep =>
      cases h' with
      | done hstep' => cases hstep.symm.trans hstep'; exact ⟨rfl, rfl⟩
      | next hstep' => cases hstep.symm.trans hstep'
  | next hstep _ ih =>
      cases h' with
      | done hstep' => cases hstep.symm.trans hstep'
      | next hstep' hrest => cases hstep.symm.trans hstep'; exact ih hrest

/-- A run that gets somewhere goes on from there. -/
theorem Reaches.returns (h : Reaches env input body c c')
    (hreturns : Returns env input body c' value world) :
    Returns env input body c value world := by
  induction h using Relation.ReflTransGen.head_induction_on with
  | refl => exact hreturns
  | head hstep _ ih => exact .next hstep ih

/-- One step is a way. -/
theorem Reaches.next (h : c.step env input body = .goesOn c') :
    Reaches env input body c c' := Relation.ReflTransGen.single h

/-- Ways are joined. -/
theorem Reaches.trans {c'' : Config} (h : Reaches env input body c c')
    (h' : Reaches env input body c' c'') : Reaches env input body c c'' :=
  Relation.ReflTransGen.trans h h'

end ClassLang
