import ClassLang.Syntax.Parser.Stmt

/-!
# Reading declarations and whole scripts

A class member that cannot be read is noted and left out, and so is a top-level
declaration.  A script is accepted if no error was noted at all, lexical ones
included; otherwise every error is reported, in the order of the places they are
about.
-/

namespace ClassLang

namespace Parser

/-- Reads one parameter. -/
def param : Parser Param := do
  let ty ← typeExpr
  let name ← ident
  return ⟨← freshId, ty, name, ty.span.merge name.span⟩

/-- Reads parameters up to the closing parenthesis, in at most `fuel` rounds, and
whether `...` stands behind them.  Only external functions may take `...`. -/
def paramsUpTo (isExternal : Bool) : Nat → Parser (List Param × Bool)
  | 0 => exhausted
  | fuel + 1 => do
    let token ← peek
    if ← eat (.mark .ellipsis) then
      if isExternal then
        if ← check (.mark .rightParen) then return ([], true)
        else
          let found ← peek
          fail (.variadicNotLast found.span found.describe)
      else fail (.variadicBody token.span)
    else
      let first ← param
      if ← eat (.mark .comma) then
        let (rest, variadic) ← paramsUpTo isExternal fuel
        return (first :: rest, variadic)
      else
        return ([first], false)

/-- Reads a parameter list with its parentheses. -/
def params (isExternal : Bool) : Parser (List Param × Bool) := do
  let _ ← expect (.mark .leftParen)
  let result ←
    if ← check (.mark .rightParen) then pure ([], false)
    else bounded (paramsUpTo isExternal)
  let _ ← expect (.mark .rightParen)
  return result

/-- Reads a function with a body, from its parameter list on. -/
def functionRest (returnType : TypeExpr) (name : Ident) : Parser FunctionDecl := do
  let id ← freshId
  let (params, _) ← params false
  let body ← block
  return ⟨id, returnType, name, params, .block body, returnType.span.merge body.span⟩

/-- Reads an external function, from its parameter list on. -/
def externalRest (returnType : TypeExpr) (name : Ident) : Parser FunctionDecl := do
  let id ← freshId
  let (params, variadic) ← params true
  let stop ← expect (.mark .semicolon)
  return ⟨id, returnType, name, params, .external variadic,
    returnType.span.merge stop.span⟩

/-- Reads `extern type name(params);`. -/
def externalDecl : Parser FunctionDecl := do
  let start ← expect (.keyword .externWord)
  let ty ← typeExpr
  let name ← ident
  let decl ← externalRest ty name
  return { decl with span := start.span.merge decl.span }

/-- Reads the end of a field, from the semicolon on. -/
def fieldRest (ty : TypeExpr) (name : Ident) : Parser FieldDecl := do
  let stop ← expect (.mark .semicolon)
  return ⟨← freshId, ty, name, ty.span.merge stop.span⟩

/-- Reads `type name;`. -/
def fieldDecl : Parser FieldDecl := do
  let ty ← typeExpr
  let name ← ident
  fieldRest ty name

/-- Reads a field or a member function. -/
def classMember : Parser ClassMember := do
  let ty ← typeExpr
  let name ← ident
  if ← check (.mark .leftParen) then .method <$> functionRest ty name
  else .field <$> fieldRest ty name

/-- Reads `class name extends parent { members }`, where the parent may be
missing. -/
def classDecl : Parser ClassDecl := do
  let start ← expect (.keyword .classWord)
  let id ← freshId
  let name ← ident
  let parent ← if ← eat (.keyword .extendsWord) then some <$> ident else pure none
  let _ ← expect (.mark .leftBrace)
  let members ← recovering closesBraces classMember skipStatement
  let stop ← expect (.mark .rightBrace)
  return ⟨id, name, parent, members, start.span.merge stop.span⟩

/-- Reads `struct name { fields }`. -/
def structDecl : Parser StructDecl := do
  let start ← expect (.keyword .structWord)
  let id ← freshId
  let name ← ident
  let _ ← expect (.mark .leftBrace)
  let fields ← many closesBraces fieldDecl
  let stop ← expect (.mark .rightBrace)
  return ⟨id, name, fields, start.span.merge stop.span⟩

/-- Reads a function at the top level, where nothing else starts with a type. -/
def freeFunction : Parser FunctionDecl := do
  let ty ← typeExpr
  let name ← ident
  if ← check (.mark .leftParen) then functionRest ty name
  else fail (.globalVariable name.span name.name)

/-- Reads a top-level declaration. -/
def item : Parser Item := do
  match (← peek).kind with
  | .keyword .classWord => .classDecl <$> classDecl
  | .keyword .structWord => .structDecl <$> structDecl
  | .keyword .externWord => .function <$> externalDecl
  | _ => .function <$> freeFunction

/-- Reads top-level declarations up to the end of the source. -/
def items : Parser (List Item) := recovering (· == .eof) item skipItem

end Parser

/-- What is left of a source after leaving out what cannot be read, with the syntax
errors in the order they were met. -/
structure ScriptReading where
  script : Script
  errors : List SyntaxError
  deriving Repr, Inhabited

namespace Script

/-- Reads a lexed source, leaving out what cannot be read. -/
def readLexed (lexed : Lexed) : ScriptReading :=
  let start := ParserState.ofLexed lexed
  match Parser.items start with
  | .ok items rest =>
    ⟨⟨items, start.peek.span.merge rest.peek.span, rest.nextId⟩, rest.errors⟩
  | .fail error rest =>
    ⟨⟨[], start.peek.span.merge rest.peek.span, rest.nextId⟩, rest.errors ++ [error]⟩

/-- Reads a source, leaving out what cannot be read. -/
def read (source : String) : ScriptReading := readLexed (lex source)

end Script

namespace SyntaxError

/-- Puts an error in front of the first one that is about a later place. -/
def insertByPlace (error : SyntaxError) : List SyntaxError → List SyntaxError
  | [] => [error]
  | head :: rest =>
    if error.span.startsBefore head.span then error :: head :: rest
    else head :: insertByPlace error rest

/-- Errors by place; errors about one place stay in the order given. -/
def sortByPlace (errors : List SyntaxError) : List SyntaxError :=
  errors.foldl (fun sorted error => insertByPlace error sorted) []

end SyntaxError

/-- Parses a source: the script, or every lexical and syntax error by place. -/
def parse (source : String) : Except (List SyntaxError) Script :=
  let lexed := lex source
  let reading := Script.readLexed lexed
  match reading.errors ++ lexed.errors.map .ofLexError with
  | [] => .ok reading.script
  | errors => .error (SyntaxError.sortByPlace errors)

end ClassLang
