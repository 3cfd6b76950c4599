import ClassLang.Syntax.Parser

/-!
# Reading types and expressions

Expressions are read by binding power: an operator goes on with the expression on
its left as long as it binds that expression at least as tightly as asked.  The
productions take the parser for nested expressions as an argument, and `exprUpTo`
ties the knot; since every nested expression stands behind a token of its own, the
number of tokens bounds the nesting.
-/

namespace ClassLang.Parser

/-- Reads stars behind a type, in at most `fuel` rounds. -/
def starsUpTo : Nat → TypeExpr → Parser TypeExpr
  | 0, _ => exhausted
  | fuel + 1, ty => do
    let token ← peek
    if ← eat (.mark .star) then
      starsUpTo fuel { ty with depth := ty.depth + 1, span := ty.span.merge token.span }
    else
      return ty

/-- Reads a type: a primitive type or a name, followed by any number of stars. -/
def typeExpr : Parser TypeExpr := do
  let token ← peek
  match token.kind with
  | .keyword (.type p) => advance *> bounded (starsUpTo · ⟨.primitive p, 0, token.span⟩)
  | .identifier =>
    advance *> bounded (starsUpTo · ⟨.named ⟨token.lexeme, token.span⟩, 0, token.span⟩)
  | .eof => fail (.unexpectedEof token.span)
  | _ => fail (.expectedType token.span token.describe)

/-- The largest value of an integer literal. -/
def maxLiteral : Nat := Nat.pow 2 63 - 1

/-- Reads a literal token that has been looked at. -/
def literal (value : Literal) : Parser Expr := do
  let token ← advance
  return .literal (← freshId) value token.span

/-- Reads the arguments of a call, with their parentheses, and gives them with the
place of the closing one. -/
def arguments (expr : Parser Expr) : Parser (List Expr × Span) := do
  let _ ← expect (.mark .leftParen)
  let args ← if ← check (.mark .rightParen) then pure [] else separated expr
  let close ← expect (.mark .rightParen)
  return (args, close.span)

/-- Reads a literal, a name, a call, or an expression in parentheses. -/
def primary (expr : Parser Expr) : Parser Expr := do
  let token ← peek
  match token.kind with
  | .integer =>
    let value := Text.decimalValue token.lexeme.toList
    if value ≤ maxLiteral then literal (.int value)
    else fail (.literalTooLarge token.span token.lexeme)
  | .keyword (.boolean value) => literal (.bool value)
  | .string => literal (.string (Quoted.decode token.lexeme))
  | .identifier =>
    let name ← ident
    if ← check (.mark .leftParen) then
      let (args, close) ← arguments expr
      return .call (← freshId) name args (name.span.merge close)
    else
      return .name (← freshId) name
  | .mark .leftParen =>
    let _ ← advance
    let inner ← expr
    let _ ← expect (.mark .rightParen)
    return inner
  | .eof => fail (.unexpectedEof token.span)
  | _ => fail (.expectedExpression token.span token.describe)

/-- Reads `.member` and `.method(args)` behind an expression, in at most `fuel`
rounds. -/
def suffixesUpTo (expr : Parser Expr) : Nat → Expr → Parser Expr
  | 0, _ => exhausted
  | fuel + 1, object => do
    if ← eat (.mark .dot) then
      let name ← ident
      if ← check (.mark .leftParen) then
        let (args, close) ← arguments expr
        let id ← freshId
        suffixesUpTo expr fuel (.methodCall id object name args (object.span.merge close))
      else
        let id ← freshId
        suffixesUpTo expr fuel (.member id object name (object.span.merge name.span))
    else
      return object

/-- Reads operators that bind at least as tightly as `power`, with their right
sides, in at most `fuel` rounds. -/
def operatorsUpTo (expr : Nat → Parser Expr) (power : Nat) : Nat → Expr → Parser Expr
  | 0, _ => exhausted
  | fuel + 1, left => do
    let token ← peek
    if token.kind = .mark .equal then
      if assignPower.1 < power then return left
      else if left.isPlace then
        let _ ← advance
        let value ← expr assignPower.2
        let id ← freshId
        operatorsUpTo expr power fuel (.assign id left value (left.span.merge value.span))
      else fail (.notAssignable left.span)
    else
      match token.kind.operator? with
      | none => return left
      | some op =>
        if op.power.1 < power then return left
        else
          let _ ← advance
          let right ← expr op.power.2
          let id ← freshId
          operatorsUpTo expr power fuel
            (.binary id op left right (left.span.merge right.span))

/-- Reads an expression nested at most `fuel` deep whose operators bind at least as
tightly as `power`. -/
def exprUpTo : Nat → Nat → Parser Expr
  | 0, _ => exhausted
  | fuel + 1, power => do
    let head ← primary (exprUpTo fuel 0)
    let operand ← bounded (suffixesUpTo (exprUpTo fuel 0) · head)
    bounded (operatorsUpTo (exprUpTo fuel) power · operand)

/-- Reads an expression whose operators bind at least as tightly as `power`. -/
def exprFrom (power : Nat) : Parser Expr := bounded (exprUpTo · power)

/-- Reads an expression. -/
def expr : Parser Expr := exprFrom 0

end ClassLang.Parser
