import ClassLang.Proofs.Syntax.Places
import ClassLang.Syntax.Parser.Decl

/-!
# Reading with the arithmetic of a machine

The productions of the parser once more, for any way of merging two places and of numbering a node
(`Parser.Arithmetic`).  There are two uses of them.  Places may be merged in numbers of 32 bits
(`Span.mergeChecked?`): if a sum or a difference leaves them, `overflow` is done instead, which may
fail, go on with some other place, or do anything else.  And nodes may be numbered in words of 32
bits, so that the next number wraps around.  That neither makes a difference to what is read is said
by comparing these productions to those that merge and number without bounds.

Only what merges places or takes a number, or calls what does, is here.
-/

namespace ClassLang

namespace Parser

/-- How places are merged and how nodes are numbered. -/
structure Arithmetic where
  /-- The place from the start of one that also covers another. -/
  merge : Span → Span → Parser Span
  /-- The number of the next node. -/
  fresh : Parser NodeId

/-- Places are merged in numbers of 32 bits. -/
def checked (overflow : Parser Span) : Arithmetic where
  merge a b :=
    match a.mergeChecked? b with
    | some span => pure span
    | none => overflow
  fresh := freshId

/-- Nodes are numbered in words of 32 bits. -/
def wrapping : Arithmetic where
  merge a b := pure (a.merge b)
  fresh s := .ok s.nextId { s with nextId := (UInt32.ofNat s.nextId + 1).toNat }

namespace Arithmetic

variable (arith : Arithmetic)

/-! ## Types and expressions -/

/-- Reads stars behind a type, in at most `fuel` rounds. -/
def starsUpTo : Nat → TypeExpr → Parser TypeExpr
  | 0, _ => exhausted
  | fuel + 1, ty => do
    let token ← peek
    if ← eat (.mark .star) then
      let span ← arith.merge ty.span token.span
      starsUpTo fuel { ty with depth := ty.depth + 1, span := span }
    else
      return ty

/-- Reads a type. -/
def typeExpr : Parser TypeExpr := do
  let token ← peek
  match token.kind with
  | .keyword (.type p) => advance *> bounded (arith.starsUpTo · ⟨.primitive p, 0, token.span⟩)
  | .identifier =>
    advance *> bounded (arith.starsUpTo · ⟨.named ⟨token.lexeme, token.span⟩, 0, token.span⟩)
  | .eof => fail (.unexpectedEof token.span)
  | _ => fail (.expectedType token.span token.describe)

/-- Reads a literal token that has been looked at. -/
def literal (value : Literal) : Parser Expr := do
  let token ← advance
  return .literal (← arith.fresh) value token.span

/-- Reads a literal, a name, a call, or an expression in parentheses. -/
def primary (expr : Parser Expr) : Parser Expr := do
  let token ← peek
  match token.kind with
  | .integer =>
    let value := Text.decimalValue token.lexeme.toList
    if value ≤ maxLiteral then arith.literal (.int value)
    else fail (.literalTooLarge token.span token.lexeme)
  | .keyword (.boolean value) => arith.literal (.bool value)
  | .string => arith.literal (.string (Quoted.decode token.lexeme))
  | .identifier =>
    let name ← ident
    if ← check (.mark .leftParen) then
      let (args, close) ← arguments expr
      let id ← arith.fresh
      let span ← arith.merge name.span close
      return .call id name args span
    else
      return .name (← arith.fresh) name
  | .mark .leftParen =>
    let _ ← advance
    let inner ← expr
    let _ ← expect (.mark .rightParen)
    return inner
  | .eof => fail (.unexpectedEof token.span)
  | _ => fail (.expectedExpression token.span token.describe)

/-- Reads `.member` and `.method(args)` behind an expression, in at most `fuel` rounds. -/
def suffixesUpTo (expr : Parser Expr) : Nat → Expr → Parser Expr
  | 0, _ => exhausted
  | fuel + 1, object => do
    if ← eat (.mark .dot) then
      let name ← ident
      if ← check (.mark .leftParen) then
        let (args, close) ← arguments expr
        let id ← arith.fresh
        let span ← arith.merge object.span close
        suffixesUpTo expr fuel (.methodCall id object name args span)
      else
        let id ← arith.fresh
        let span ← arith.merge object.span name.span
        suffixesUpTo expr fuel (.member id object name span)
    else
      return object

/-- Reads operators that bind at least as tightly as `power`, with their right sides, in at most
`fuel` rounds. -/
def operatorsUpTo (expr : Nat → Parser Expr) (power : Nat) : Nat → Expr → Parser Expr
  | 0, _ => exhausted
  | fuel + 1, left => do
    let token ← peek
    if token.kind = .mark .equal then
      if assignPower.1 < power then return left
      else if left.isPlace then
        let _ ← advance
        let value ← expr assignPower.2
        let id ← arith.fresh
        let span ← arith.merge left.span value.span
        operatorsUpTo expr power fuel (.assign id left value span)
      else fail (.notAssignable left.span)
    else
      match token.kind.operator? with
      | none => return left
      | some op =>
        if op.power.1 < power then return left
        else
          let _ ← advance
          let right ← expr op.power.2
          let id ← arith.fresh
          let span ← arith.merge left.span right.span
          operatorsUpTo expr power fuel (.binary id op left right span)

/-- Reads an expression nested at most `fuel` deep whose operators bind at least as tightly as
`power`. -/
def exprUpTo : Nat → Nat → Parser Expr
  | 0, _ => exhausted
  | fuel + 1, power => do
    let head ← arith.primary (exprUpTo fuel 0)
    let operand ← bounded (arith.suffixesUpTo (exprUpTo fuel 0) · head)
    bounded (arith.operatorsUpTo (exprUpTo fuel) power · operand)

/-- Reads an expression. -/
def expr : Parser Expr := bounded (arith.exprUpTo · 0)

/-! ## Statements -/

/-- Reads `ty name = value;`, where the value may be missing. -/
def varDecl : Parser Stmt := do
  let ty ← arith.typeExpr
  let name ← ident
  let value ← if ← eat (.mark .equal) then some <$> arith.expr else pure none
  let stop ← expect (.mark .semicolon)
  let id ← arith.fresh
  let span ← arith.merge ty.span stop.span
  return .varDecl id ty name value span

/-- Reads an expression and a semicolon. -/
def exprStmt : Parser Stmt := do
  let e ← arith.expr
  let stop ← expect (.mark .semicolon)
  let span ← arith.merge e.span stop.span
  return .expr e span

/-- Reads `return value;`, where the value may be missing. -/
def returnStmt : Parser Stmt := do
  let start ← expect (.keyword .returnWord)
  let value ← if ← check (.mark .semicolon) then pure none else some <$> arith.expr
  let stop ← expect (.mark .semicolon)
  let span ← arith.merge start.span stop.span
  return .ret value span

/-- Reads statements in braces. -/
def blockWith (stmt : Parser Stmt) : Parser Block := do
  let start ← expect (.mark .leftBrace)
  let id ← arith.fresh
  let stmts ← recovering closesBraces stmt skipStatement
  let stop ← expect (.mark .rightBrace)
  let span ← arith.merge start.span stop.span
  return ⟨id, stmts, span⟩

/-- Reads a conditional statement. -/
def ifWith (stmt : Parser Stmt) : Parser Stmt := do
  let start ← expect (.keyword .ifWord)
  let _ ← expect (.mark .leftParen)
  let condition ← arith.expr
  let _ ← expect (.mark .rightParen)
  let positive ← stmt
  if ← eat (.keyword .elseWord) then
    let negative ← stmt
    let span ← arith.merge start.span negative.span
    return .ifElse condition positive negative span
  else
    let span ← arith.merge start.span positive.span
    return .ifThen condition positive span

/-- Reads a statement whose parts are read by `stmt`. -/
def stmtWith (stmt : Parser Stmt) : Parser Stmt := fun s =>
  match s.peek.kind with
  | .keyword .ifWord => arith.ifWith stmt s
  | .keyword .returnWord => arith.returnStmt s
  | .mark .leftBrace => (Block.toStmt <$> arith.blockWith stmt) s
  | _ => if s.startsVarDecl then arith.varDecl s else arith.exprStmt s

/-- Reads a statement nested at most `fuel` deep. -/
def stmtUpTo : Nat → Parser Stmt
  | 0 => exhausted
  | fuel + 1 => arith.stmtWith (stmtUpTo fuel)

/-- Reads statements in braces. -/
def block : Parser Block := arith.blockWith (bounded arith.stmtUpTo)

/-! ## Declarations -/

/-- Reads one parameter. -/
def param : Parser Param := do
  let ty ← arith.typeExpr
  let name ← ident
  let id ← arith.fresh
  let span ← arith.merge ty.span name.span
  return ⟨id, ty, name, span⟩

/-- Reads parameters up to the closing parenthesis, in at most `fuel` rounds, and whether `...`
stands behind them. -/
def paramsUpTo (isExternal : Bool) : Nat → Parser (List Param × Bool)
  | 0 => exhausted
  | fuel + 1 => do
    let token ← peek
    if ← eat (.mark .ellipsis) then
      if isExternal then
        if ← check (.mark .rightParen) then return ([], true)
        else
          let found ← peek
          fail (.variadicNotLast found.span found.describe)
      else fail (.variadicBody token.span)
    else
      let first ← arith.param
      if ← eat (.mark .comma) then
        let (rest, variadic) ← paramsUpTo isExternal fuel
        return (first :: rest, variadic)
      else
        return ([first], false)

/-- Reads a parameter list with its parentheses. -/
def params (isExternal : Bool) : Parser (List Param × Bool) := do
  let _ ← expect (.mark .leftParen)
  let result ←
    if ← check (.mark .rightParen) then pure ([], false)
    else bounded (arith.paramsUpTo isExternal)
  let _ ← expect (.mark .rightParen)
  return result

/-- Reads a function with a body, from its parameter list on. -/
def functionRest (returnType : TypeExpr) (name : Ident) : Parser FunctionDecl := do
  let id ← arith.fresh
  let (params, _) ← arith.params false
  let body ← arith.block
  let span ← arith.merge returnType.span body.span
  return ⟨id, returnType, name, params, .block body, span⟩

/-- Reads an external function, from its parameter list on. -/
def externalRest (returnType : TypeExpr) (name : Ident) : Parser FunctionDecl := do
  let id ← arith.fresh
  let (params, variadic) ← arith.params true
  let stop ← expect (.mark .semicolon)
  let span ← arith.merge returnType.span stop.span
  return ⟨id, returnType, name, params, .external variadic, span⟩

/-- Reads `extern type name(params);`. -/
def externalDecl : Parser FunctionDecl := do
  let start ← expect (.keyword .externWord)
  let ty ← arith.typeExpr
  let name ← ident
  let decl ← arith.externalRest ty name
  let span ← arith.merge start.span decl.span
  return { decl with span := span }

/-- Reads the end of a field, from the semicolon on. -/
def fieldRest (ty : TypeExpr) (name : Ident) : Parser FieldDecl := do
  let stop ← expect (.mark .semicolon)
  let id ← arith.fresh
  let span ← arith.merge ty.span stop.span
  return ⟨id, ty, name, span⟩

/-- Reads `type name;`. -/
def fieldDecl : Parser FieldDecl := do
  let ty ← arith.typeExpr
  let name ← ident
  arith.fieldRest ty name

/-- Reads a field or a member function. -/
def classMember : Parser ClassMember := do
  let ty ← arith.typeExpr
  let name ← ident
  if ← check (.mark .leftParen) then .method <$> arith.functionRest ty name
  else .field <$> arith.fieldRest ty name

/-- Reads `class name extends parent { members }`, where the parent may be missing. -/
def classDecl : Parser ClassDecl := do
  let start ← expect (.keyword .classWord)
  let id ← arith.fresh
  let name ← ident
  let parent ← if ← eat (.keyword .extendsWord) then some <$> ident else pure none
  let _ ← expect (.mark .leftBrace)
  let members ← recovering closesBraces arith.classMember skipStatement
  let stop ← expect (.mark .rightBrace)
  let span ← arith.merge start.span stop.span
  return ⟨id, name, parent, members, span⟩

/-- Reads `struct name { fields }`. -/
def structDecl : Parser StructDecl := do
  let start ← expect (.keyword .structWord)
  let id ← arith.fresh
  let name ← ident
  let _ ← expect (.mark .leftBrace)
  let fields ← many closesBraces arith.fieldDecl
  let stop ← expect (.mark .rightBrace)
  let span ← arith.merge start.span stop.span
  return ⟨id, name, fields, span⟩

/-- Reads a function at the top level. -/
def freeFunction : Parser FunctionDecl := do
  let ty ← arith.typeExpr
  let name ← ident
  if ← check (.mark .leftParen) then arith.functionRest ty name
  else fail (.globalVariable name.span name.name)

/-- Reads a top-level declaration. -/
def item : Parser Item := do
  match (← peek).kind with
  | .keyword .classWord => .classDecl <$> arith.classDecl
  | .keyword .structWord => .structDecl <$> arith.structDecl
  | .keyword .externWord => .function <$> arith.externalDecl
  | _ => .function <$> arith.freeFunction

/-- Reads top-level declarations up to the end of the source. -/
def items : Parser (List Item) := recovering (· == .eof) arith.item skipItem

end Arithmetic

end Parser

namespace Script

/-- Reads a source, with places merged in 32 bits; nothing if the place of the whole script leaves
them. -/
def readChecked (overflow : Parser Span) (source : String) : Option ScriptReading :=
  let start := ParserState.ofSource source
  match (Parser.checked overflow).items start with
  | .ok items rest => do
    let span ← start.peek.span.mergeChecked? rest.peek.span
    return ⟨⟨items, span, rest.nextId⟩, rest.errors⟩
  | .fail error rest => do
    let span ← start.peek.span.mergeChecked? rest.peek.span
    return ⟨⟨[], span, rest.nextId⟩, rest.errors ++ [error]⟩

/-- Reads a source, with nodes numbered in words of 32 bits. -/
def readWords (source : String) : ScriptReading :=
  let start := ParserState.ofSource source
  match Parser.wrapping.items start with
  | .ok items rest =>
    ⟨⟨items, start.peek.span.merge rest.peek.span, rest.nextId⟩, rest.errors⟩
  | .fail error rest =>
    ⟨⟨[], start.peek.span.merge rest.peek.span, rest.nextId⟩, rest.errors ++ [error]⟩

end Script

end ClassLang
