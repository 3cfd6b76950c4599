/-!
# Operators

Arithmetic operators and comparisons are shared by the source language and the
instructions; binary operators add the two logical connectives of the source
language and say how tightly each operator binds.
-/

namespace ClassLang

/-- Integer arithmetic and bitwise operators. -/
inductive ArithOp
  | add | sub | mul | div | bitAnd | bitOr | bitXor
  deriving DecidableEq, Repr, Inhabited

/-- The operator as written. -/
def ArithOp.text : ArithOp → String
  | .add => "+"
  | .sub => "-"
  | .mul => "*"
  | .div => "/"
  | .bitAnd => "&"
  | .bitOr => "|"
  | .bitXor => "^"

/-- Integer comparisons; all of them give a `bool`. -/
inductive CompareOp
  | eq | ne | gt | lt | ge | le
  deriving DecidableEq, Repr, Inhabited

/-- The comparison as written. -/
def CompareOp.text : CompareOp → String
  | .eq => "=="
  | .ne => "!="
  | .gt => ">"
  | .lt => "<"
  | .ge => ">="
  | .le => "<="

/-- Binary operators of the source language. -/
inductive BinaryOp
  /-- `||`, which evaluates its right side only if the left one is false. -/
  | or
  /-- `&&`, which evaluates both sides. -/
  | and
  | arith (op : ArithOp)
  | compare (op : CompareOp)
  deriving DecidableEq, Repr, Inhabited

namespace BinaryOp

/-- The operator as written. -/
def text : BinaryOp → String
  | .or => "||"
  | .and => "&&"
  | .arith op => op.text
  | .compare op => op.text

/-- Precedence level, from `1` for the weakest operator. -/
def level : BinaryOp → Nat
  | .or => 1
  | .and => 2
  | .arith .bitOr => 3
  | .arith .bitXor => 4
  | .arith .bitAnd => 5
  | .compare .eq | .compare .ne => 6
  | .compare _ => 7
  | .arith .add | .arith .sub => 8
  | .arith .mul | .arith .div => 9

/-- How tightly the operator binds to its left and to its right operand.  The
right power is the larger one, so every binary operator groups to the left. -/
def power (op : BinaryOp) : Nat × Nat := (2 * op.level + 1, 2 * op.level + 2)

end BinaryOp

/-- Binding powers of assignment: weaker than every operator, and grouping to
the right. -/
def assignPower : Nat × Nat := (2, 1)

/-- Assignment binds its left side less tightly than any operator does. -/
theorem assignPower_lt (op : BinaryOp) : assignPower.1 < op.power.1 := by
  rcases op with _ | _ | op | op <;> (try cases op) <;> decide

end ClassLang
