import ClassLang.Span
import ClassLang.Text

/-!
# Errors

The ways a compilation can fail.  Lexical, syntax and semantic errors are about
the source text and are collected; internal errors say that a promise between
two stages was broken, and end the run.  Each error is a cause, and its wording
is one function of the cause.
-/

namespace ClassLang

/-- Why a piece of source text is not a token. -/
inductive LexError
  | unexpectedChar (char : Char) (span : Span)
  | unterminatedString (span : Span)
  | unterminatedComment (span : Span)
  | invalidEscape (char : Char) (span : Span)
  | invalidNumber (span : Span) (detail : String)
  deriving DecidableEq, Repr, Inhabited

namespace LexError

/-- Where the error is. -/
def span : LexError → Span
  | .unexpectedChar _ s | .unterminatedString s | .unterminatedComment s
  | .invalidEscape _ s | .invalidNumber s _ => s

/-- The wording. -/
def message : LexError → String
  | .unexpectedChar c s => "unexpected character '" ++ c.toString ++ "' at " ++ s.text
  | .unterminatedString s => "unterminated string at " ++ s.text
  | .unterminatedComment s => "unterminated comment at " ++ s.text
  | .invalidEscape c s => "invalid escape '\\" ++ c.toString ++ "' at " ++ s.text
  | .invalidNumber s detail => "invalid number at " ++ s.text ++ ": " ++ detail

end LexError

/-- What kind of mistake a syntax error is. -/
inductive SyntaxKind
  | lexical
  | expectedToken
  | unexpectedToken
  | unexpectedEof
  | expectedIdentifier
  | expectedExpression
  | expectedType
  | expectedStatement
  | expectedDeclaration
  | misplacedVariadic
  | invalidLiteral
  | invalidAssignTarget
  deriving DecidableEq, Repr, Inhabited

/-- The wording of a kind. -/
def SyntaxKind.text : SyntaxKind → String
  | .lexical => "lexical error"
  | .expectedToken => "expected token"
  | .unexpectedToken => "unexpected token"
  | .unexpectedEof => "unexpected end of file"
  | .expectedIdentifier => "expected identifier"
  | .expectedExpression => "expected expression"
  | .expectedType => "expected type"
  | .expectedStatement => "expected statement"
  | .expectedDeclaration => "expected declaration"
  | .misplacedVariadic => "misplaced variadic marker"
  | .invalidLiteral => "invalid literal"
  | .invalidAssignTarget => "invalid assignment target"

/-- A place where the source does not follow the grammar. -/
structure SyntaxError where
  kind : SyntaxKind
  span : Span
  message : String
  deriving DecidableEq, Repr, Inhabited

namespace SyntaxError

/-- Some token stands where another one is needed. -/
def expectedToken (span : Span) (expected found : String) : SyntaxError :=
  ⟨.expectedToken, span, "expected " ++ expected ++ ", found " ++ found⟩

/-- The source ends too early. -/
def unexpectedEof (span : Span) : SyntaxError :=
  ⟨.unexpectedEof, span, "unexpected end of file"⟩

/-- A name is needed. -/
def expectedIdentifier (span : Span) (found : String) : SyntaxError :=
  ⟨.expectedIdentifier, span, "expected identifier, found " ++ found⟩

/-- An expression is needed. -/
def expectedExpression (span : Span) (found : String) : SyntaxError :=
  ⟨.expectedExpression, span, "expected expression, found " ++ found⟩

/-- A type is needed. -/
def expectedType (span : Span) (found : String) : SyntaxError :=
  ⟨.expectedType, span, "expected type, found " ++ found⟩

/-- Only functions may be declared at the top level with a type in front. -/
def globalVariable (span : Span) (name : String) : SyntaxError :=
  ⟨.expectedDeclaration, span,
    "expected '(' after '" ++ name ++ "': global variables are not supported"⟩

/-- A function with a body cannot take `...`. -/
def variadicBody (span : Span) : SyntaxError :=
  ⟨.misplacedVariadic, span, "only external functions may take '...'"⟩

/-- Nothing may follow `...` in a parameter list. -/
def variadicNotLast (span : Span) (found : String) : SyntaxError :=
  ⟨.misplacedVariadic, span, "'...' must be the last parameter, found " ++ found⟩

/-- An integer literal is too large. -/
def literalTooLarge (span : Span) (digits : String) : SyntaxError :=
  ⟨.invalidLiteral, span, "integer literal " ++ digits ++ " does not fit in 64 bits"⟩

/-- The left side of `=` names no place. -/
def notAssignable (span : Span) : SyntaxError :=
  ⟨.invalidAssignTarget, span, "only variables and members can be assigned to"⟩

/-- A lexical error, reported among the syntax errors. -/
def ofLexError (error : LexError) : SyntaxError :=
  ⟨.lexical, error.span, error.message⟩

/-- The wording on one line. -/
def text (error : SyntaxError) : String :=
  error.kind.text ++ " at " ++ error.span.text ++ ": " ++ error.message

/-- The wording, followed by the source line it is about and a marker under the
place. -/
def shown (error : SyntaxError) (source : String) : String :=
  let head := "error at " ++ error.span.text ++ ": " ++ error.kind.text ++ "\n  "
    ++ error.message ++ "\n"
  match (Text.lines source)[error.span.line - 1]? with
  | none => head
  | some line =>
    head ++ Text.padLeft 4 (toString error.span.line) ++ " | " ++ line ++ "\n     | "
      ++ Text.repeated (error.span.col - 1) ' '
      ++ Text.repeated (max error.span.len 1) '^' ++ "\n"

/-- The wording of several errors, a line each. -/
def textOfAll (errors : List SyntaxError) : String :=
  "\n".intercalate (errors.map text)

end SyntaxError

end ClassLang
