import ClassLang.Symbol.Table

/-!
# Semantic errors

Names that mean nothing, names declared twice, and things of the wrong kind or
type.  A mismatch is one of a fixed list of causes; types and symbols in it are
given by the words a message uses for them.
-/

namespace ClassLang

/-- Why a name or an expression does not fit where it stands. -/
inductive Mismatch
  /-- A name stands for something of another kind than is wanted. -/
  | wrongKind (name kind wanted : String)
  /-- A variable, field or parameter of type `void`. -/
  | voidStorage (what : String)
  | containsItself (name : String)
  | circularInheritance (name parent : String)
  /-- The arguments of something that is not a function were declared. -/
  | signature (error : RegistryError)
  | missingReturn (function : String)
  | valueFromVoid
  | missingReturnValue (type : String)
  | literalTooLarge (value : Nat) (type : String)
  | operands (operator left right : String)
  | pointerArgument (name : String)
  | notAReceiver (callee type : String)
  | argumentCount (function : String) (variadic : Bool) (expected given : Nat)
  | voidArgument
  | objectNotPlace
  | noMembers (type : String)
  | memberIsFunction (name : String)
  | notAssignable (actual target : String)
  | notBool (what found : String)
  /-- A mismatch in the words of whoever reports it. -/
  | described (text : String)
  deriving DecidableEq, Repr, Inhabited

/-- The wording. -/
def Mismatch.message : Mismatch → String
  | .wrongKind name kind wanted => "'" ++ name ++ "' is a " ++ kind ++ ", not a " ++ wanted
  | .voidStorage what => what ++ " cannot have type 'void'"
  | .containsItself name => "'" ++ name ++ "' contains itself by value"
  | .circularInheritance name parent =>
    "circular inheritance: '" ++ name ++ "' cannot extend '" ++ parent ++ "'"
  | .signature error => error.message
  | .missingReturn function =>
    "function '" ++ function ++ "' does not return a value on every path"
  | .valueFromVoid => "cannot return a value from a void function"
  | .missingReturnValue type => "missing return value of type '" ++ type ++ "'"
  | .literalTooLarge value type =>
    "integer literal " ++ toString value ++ " does not fit in '" ++ type ++ "'"
  | .operands operator left right =>
    "operator '" ++ operator ++ "' needs two integers of the same type, found '" ++ left
      ++ "' and '" ++ right ++ "'"
  | .pointerArgument name => "cannot assign to pointer argument '" ++ name ++ "'"
  | .notAReceiver callee type =>
    "cannot call '" ++ callee ++ "' on a value of type '" ++ type ++ "'"
  | .argumentCount function variadic expected given =>
    "function '" ++ function ++ "' expects " ++ (if variadic then "at least " else "")
      ++ toString expected ++ " argument(s) but " ++ toString given ++ " were given"
  | .voidArgument => "cannot pass a void value"
  | .objectNotPlace => "member access needs a pointer or a variable"
  | .noMembers type => "type '" ++ type ++ "' has no members"
  | .memberIsFunction name => "'" ++ name ++ "' is a function; call it"
  | .notAssignable actual target =>
    "cannot use a value of type '" ++ actual ++ "' as '" ++ target ++ "'"
  | .notBool what found => what ++ " must be 'bool', found '" ++ found ++ "'"
  | .described text => text

/-- A mistake in the meaning of a program. -/
inductive SemanticError
  /-- A name that nothing is bound to. -/
  | unresolved (name : String) (span : Span)
  | mismatch (cause : Mismatch) (span : Span)
  /-- A second declaration of a name; the first one is at `first`. -/
  | duplicate (name : String) (first : Span) (span : Span)
  deriving DecidableEq, Repr, Inhabited

namespace SemanticError

/-- Where the error is. -/
def span : SemanticError → Span
  | .unresolved _ s | .mismatch _ s | .duplicate _ _ s => s

/-- The wording with the place in front. -/
def message : SemanticError → String
  | .unresolved name s => "at " ++ s.text ++ ": unresolved symbol '" ++ name ++ "'"
  | .mismatch cause s => "at " ++ s.text ++ ": type mismatch: " ++ cause.message
  | .duplicate name first s =>
    "at " ++ s.text ++ ": '" ++ name ++ "' is already declared at " ++ first.text

end SemanticError

end ClassLang
