import ClassLang.Syntax.Parser.Expr

/-!
# Reading statements

Statements in a block are read one by one; a statement that cannot be read is
noted and left out.  As for expressions, the productions take the parser for
nested statements as an argument.
-/

namespace ClassLang

/-- Whether the tokens ahead start a variable declaration: a primitive type always
does, and a name does if only stars stand between it and another name. -/
def ParserState.startsVarDecl (s : ParserState) : Bool :=
  match s.peek.kind with
  | .keyword (.type _) => true
  | .identifier =>
    match s.tokens.tail.dropWhile (·.kind == .mark .star) with
    | token :: _ => token.kind == .identifier
    | [] => false
  | _ => false

namespace Parser

/-- Reads `ty name = value;`, where the value may be missing. -/
def varDecl : Parser Stmt := do
  let ty ← typeExpr
  let name ← ident
  let value ← if ← eat (.mark .equal) then some <$> expr else pure none
  let stop ← expect (.mark .semicolon)
  return .varDecl (← freshId) ty name value (ty.span.merge stop.span)

/-- Reads an expression and a semicolon. -/
def exprStmt : Parser Stmt := do
  let e ← expr
  let stop ← expect (.mark .semicolon)
  return .expr e (e.span.merge stop.span)

/-- Reads `return value;`, where the value may be missing. -/
def returnStmt : Parser Stmt := do
  let start ← expect (.keyword .returnWord)
  let value ← if ← check (.mark .semicolon) then pure none else some <$> expr
  let stop ← expect (.mark .semicolon)
  return .ret value (start.span.merge stop.span)

/-- Reads statements in braces. -/
def blockWith (stmt : Parser Stmt) : Parser Block := do
  let start ← expect (.mark .leftBrace)
  let id ← freshId
  let stmts ← recovering closesBraces stmt skipStatement
  let stop ← expect (.mark .rightBrace)
  return ⟨id, stmts, start.span.merge stop.span⟩

/-- Reads a conditional statement; an `else` belongs to the nearest `if`. -/
def ifWith (stmt : Parser Stmt) : Parser Stmt := do
  let start ← expect (.keyword .ifWord)
  let _ ← expect (.mark .leftParen)
  let condition ← expr
  let _ ← expect (.mark .rightParen)
  let positive ← stmt
  if ← eat (.keyword .elseWord) then
    let negative ← stmt
    return .ifElse condition positive negative (start.span.merge negative.span)
  else
    return .ifThen condition positive (start.span.merge positive.span)

/-- Reads a statement whose parts are read by `stmt`. -/
def stmtWith (stmt : Parser Stmt) : Parser Stmt := fun s =>
  match s.peek.kind with
  | .keyword .ifWord => ifWith stmt s
  | .keyword .returnWord => returnStmt s
  | .mark .leftBrace => (Block.toStmt <$> blockWith stmt) s
  | _ => if s.startsVarDecl then varDecl s else exprStmt s

/-- Reads a statement nested at most `fuel` deep. -/
def stmtUpTo : Nat → Parser Stmt
  | 0 => exhausted
  | fuel + 1 => stmtWith (stmtUpTo fuel)

/-- Reads a statement. -/
def stmt : Parser Stmt := bounded stmtUpTo

/-- Reads statements in braces. -/
def block : Parser Block := blockWith stmt

/-- Reads a conditional statement. -/
def ifStmt : Parser Stmt := ifWith stmt

end Parser

end ClassLang
