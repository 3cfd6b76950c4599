import ClassLang.Code.Instruction
import ClassLang.Error.Internal

/-!
# Block stacks

While nested control flow is lowered, its parts are collected in lists of their own,
which are put into the surrounding list when it is known what goes in front of them.
The bottom list is the body of the function.
-/

namespace ClassLang

/-- Lists of instructions that are being filled. -/
structure BlockStack where
  /-- The function, for messages. -/
  function : String
  /-- The list being filled. -/
  top : List Instruction := []
  /-- The lists around it, innermost first. -/
  below : List (List Instruction) := []
  deriving Repr, Inhabited

namespace BlockStack

/-- Opens a new list. -/
def push (stack : BlockStack) : BlockStack :=
  { stack with top := [], below := stack.top :: stack.below }

/-- Closes the list being filled and gives it; the body itself cannot be closed. -/
def pop (stack : BlockStack) : Except InternalError (List Instruction × BlockStack) :=
  match stack.below with
  | [] => .error (.blockStackUnderflow stack.function)
  | list :: rest => .ok (stack.top, { stack with top := list, below := rest })

/-- A list that was just opened can be closed again, and is empty. -/
@[simp] theorem pop_push (stack : BlockStack) : stack.push.pop = .ok ([], stack) := rfl

/-- Puts instructions behind the list being filled. -/
def splice (stack : BlockStack) (instructions : List Instruction) : BlockStack :=
  { stack with top := stack.top ++ instructions }

/-- Puts an instruction behind the list being filled. -/
def emit (stack : BlockStack) (instruction : Instruction) : BlockStack :=
  stack.splice [instruction]

/-- The last instruction of the list being filled. -/
def last? (stack : BlockStack) : Option Instruction := stack.top.getLast?

/-- The last instruction is the one that was put there. -/
@[simp] theorem last?_emit (stack : BlockStack) (instruction : Instruction) :
    (stack.emit instruction).last? = some instruction := by
  simp [last?, emit, splice]

/-- Number of open lists, the body included. -/
def depth (stack : BlockStack) : Nat := stack.below.length + 1

/-- The body, if every other list is closed. -/
def finish (stack : BlockStack) : Except InternalError (List Instruction) :=
  match stack.below with
  | [] => .ok stack.top
  | below => .error (.invariant (.closedLists below.length stack.function))

end BlockStack

end ClassLang
