import ClassLang.Code.Instruction

/-!
# Values and memory

What a program works on when it runs, in source and in generated code alike.  Memory consists
of cells and globals; what is stored there can have parts, the fields of an object, and a
place is named by a cell or a global and the way to a part of it.  Everything outside the
function that runs is the **environment**: it answers calls, and may change memory when it
does.  A run leaves a trace of its effects: storage that was created, what was stored where,
and calls with their arguments.

Nothing here can fail.  A value that is used as what it is not, for example because memory
was never filled, is used as some fixed value of the kind that is wanted.
-/

namespace ClassLang

/-- What a place is in. -/
inductive Root
  | cell (number : Nat)
  | global (name : String)
  /-- Where values point to that are no pointers. -/
  | nowhere
  deriving DecidableEq, Repr, Inhabited

/-- A place in memory: a root and the way from there to a part of a part. -/
structure Place where
  root : Root
  path : List Nat := []
  deriving DecidableEq, Repr, Inhabited

/-- A part of what is stored at a place, or a part of its part. -/
def Place.select (place : Place) (path : List Nat) : Place :=
  { place with path := place.path ++ path }

/-- The values of a running program. -/
inductive Value
  | int (value : Int)
  | bool (value : Bool)
  | pointer (place : Place)
  /-- An object, by its parts. -/
  | parts (part : Nat → Value)
  | undefined
  deriving Inhabited

namespace Value

/-- The value as a truth value. -/
def truth : Value → Bool
  | .bool b => b
  | _ => false

/-- The value as an integer. -/
def toInt : Value → Int
  | .int n => n
  | _ => 0

/-- The value as a pointer. -/
def place : Value → Place
  | .pointer place => place
  | _ => { root := .nowhere }

/-- A part of a value. -/
def part : Value → Nat → Value
  | .parts part, index => part index
  | _, _ => .undefined

/-- The part at the end of a path. -/
def get (value : Value) : List Nat → Value
  | [] => value
  | index :: path => (value.part index).get path

/-- The value with another part at the end of a path. -/
def set (value new : Value) : List Nat → Value
  | [] => new
  | index :: path =>
    .parts fun other => if other = index then (value.part index).set new path else value.part other

/-- What was stored is found again. -/
theorem get_set (value new : Value) (path : List Nat) : (value.set new path).get path = new := by
  induction path generalizing value with
  | nil => rfl
  | cons index path ih => simp [set, get, part, ih]

theorem eq_of_truth {value : Value} (h : value.truth = true) : value = .bool true := by
  cases value <;> simp_all [truth]

end Value

/-- An effect that can be seen from outside. -/
inductive Event
  | allocate (cell : Nat)
  | store (place : Place) (value : Value)
  | call (callee : String) (args : List Value)

/-- The contents of cells and globals. -/
abbrev Memory := Root → Value

/-- How the environment answers a call. -/
structure Answer where
  value : Value
  memory : Memory
  /-- The number of cells that were created. -/
  cells : Nat

/-- What is outside of the function that runs. -/
structure Environment where
  /-- The answer to a call, after a trace and with the memory at that time. -/
  answer : List Event → Memory → String → List Value → Answer
  /-- What a number divided by zero is. -/
  byZero : Int → Int

/-- The state that a running function shares with its environment. -/
structure World where
  memory : Memory
  /-- The number of cells that exist. -/
  cells : Nat
  trace : List Event

namespace World

/-- A new cell; what is in it is whatever memory holds there. -/
def allocate (world : World) : World :=
  { world with cells := world.cells + 1, trace := world.trace ++ [.allocate world.cells] }

/-- The place of the cell that is created next. -/
def next (world : World) : Place := { root := .cell world.cells }

/-- The value at a place. -/
def load (world : World) (place : Place) : Value := (world.memory place.root).get place.path

/-- A value is stored at a place. -/
def store (world : World) (place : Place) (value : Value) : World :=
  { world with
    memory := fun root =>
      if root = place.root then (world.memory root).set value place.path else world.memory root
    trace := world.trace ++ [.store place value] }

/-- What a call gives back. -/
def reply (env : Environment) (world : World) (callee : String) (args : List Value) : Value :=
  (env.answer world.trace world.memory callee args).value

/-- The world behind a call. -/
def call (env : Environment) (world : World) (callee : String) (args : List Value) : World :=
  let answer := env.answer world.trace world.memory callee args
  { memory := answer.memory
    cells := world.cells + answer.cells
    trace := world.trace ++ [.call callee args] }

/-- Memory keeps what is stored. -/
theorem load_store (world : World) (place : Place) (value : Value) :
    (world.store place value).load place = value := by
  simp [load, store, Value.get_set]

end World

/-! ## Operators -/

/-- An operator on the bits of two numbers. -/
def ArithOp.onBits (env : Environment) (op : ArithOp) (signed : Bool) {bits : Nat}
    (x y : BitVec bits) : BitVec bits :=
  match op with
  | .add => x + y
  | .sub => x - y
  | .mul => x * y
  | .div =>
    if y = 0 then BitVec.ofInt bits (env.byZero (if signed then x.toInt else x.toNat))
    else if signed then x.sdiv y else x.udiv y
  | .bitAnd => x &&& y
  | .bitOr => x ||| y
  | .bitXor => x ^^^ y

/-- An operator on values of a type.  Integers wrap around; on truth values there is only
the conjunction. -/
def ArithOp.apply (env : Environment) (op : ArithOp) (ty : StorageType) (x y : Value) : Value :=
  match ty, op with
  | .int bits signed, op =>
    let result := op.onBits env signed (BitVec.ofInt bits x.toInt) (BitVec.ofInt bits y.toInt)
    .int (if signed then result.toInt else result.toNat)
  | .bool, .bitAnd => .bool (x.truth && y.truth)
  | _, _ => .undefined

/-- A comparison of values. -/
def CompareOp.apply (op : CompareOp) (x y : Value) : Value :=
  .bool <| match op with
    | .eq => x.toInt == y.toInt
    | .ne => x.toInt != y.toInt
    | .gt => decide (y.toInt < x.toInt)
    | .lt => decide (x.toInt < y.toInt)
    | .ge => decide (y.toInt ≤ x.toInt)
    | .le => decide (x.toInt ≤ y.toInt)

end ClassLang
