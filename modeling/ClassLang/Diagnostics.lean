import ClassLang.Error
import ClassLang.Error.Semantic

/-!
# Diagnostics

What a compilation has to say to the user, in the order it was found.  Nothing is
ever removed; a stage stops the compilation if there is an error among it.
-/

namespace ClassLang

/-- How serious a diagnostic is. -/
inductive Severity
  | error | warning | info
  deriving DecidableEq, Repr, Inhabited

/-- The word for it. -/
def Severity.text : Severity → String
  | .error => "error"
  | .warning => "warning"
  | .info => "info"

/-- One thing to say. -/
structure Diagnostic where
  severity : Severity
  message : String
  span : Span
  deriving DecidableEq, Repr, Inhabited

namespace Diagnostic

/-- The diagnostic on one line. -/
def text (d : Diagnostic) : String :=
  d.span.text ++ ": " ++ d.severity.text ++ ": " ++ d.message

/-- What is said about a semantic error. -/
def ofSemantic (error : SemanticError) : Diagnostic where
  severity := .error
  span := error.span
  message := match error with
    | .unresolved name _ => "unresolved symbol '" ++ name ++ "'"
    | .mismatch cause _ => "type mismatch: " ++ cause.message
    | .duplicate name first _ =>
      "duplicate declaration of '" ++ name ++ "' (first declared at " ++ first.text ++ ")"

/-- What is said about a syntax error. -/
def ofSyntax (error : SyntaxError) : Diagnostic :=
  ⟨.error, error.kind.text ++ ": " ++ error.message, error.span⟩

end Diagnostic

/-- Everything to say, in order, and the semantic errors among it. -/
structure Diagnostics where
  entries : List Diagnostic := []
  semantic : List SemanticError := []
  deriving DecidableEq, Repr, Inhabited

namespace Diagnostics

/-- Says one thing more. -/
def push (ds : Diagnostics) (d : Diagnostic) : Diagnostics :=
  { ds with entries := ds.entries ++ [d] }

/-- Says that there is a semantic error. -/
def report (ds : Diagnostics) (error : SemanticError) : Diagnostics where
  entries := ds.entries ++ [.ofSemantic error]
  semantic := ds.semantic ++ [error]

/-- Says that there is a syntax error. -/
def reportSyntax (ds : Diagnostics) (error : SyntaxError) : Diagnostics :=
  ds.push (.ofSyntax error)

/-- The diagnostics of a source that does not parse. -/
def ofSyntaxErrors (errors : List SyntaxError) : Diagnostics :=
  errors.foldl reportSyntax {}

/-- Number of errors. -/
def errorCount (ds : Diagnostics) : Nat :=
  ds.entries.countP fun d => d.severity == .error

/-- Whether there is an error. -/
def hasErrors (ds : Diagnostics) : Bool := ds.errorCount != 0

/-- All diagnostics, a line each. -/
def text (ds : Diagnostics) : String :=
  String.join (ds.entries.map fun d => d.text ++ "\n")

end Diagnostics

end ClassLang
