import ClassLang.Error.Semantic

/-!
# Internal errors

A promise that an earlier stage should have kept and did not.  Code generation
stops at the first one.
-/

namespace ClassLang

/-- What was to be known about a syntax node. -/
inductive Facet
  | declaration | receiver | function | field | variable | symbol | type | stringLiteral
  deriving DecidableEq, Repr, Inhabited

/-- The word for it. -/
def Facet.text : Facet → String
  | .declaration => "declaration"
  | .receiver => "receiver"
  | .function => "function"
  | .field => "field"
  | .variable => "variable"
  | .symbol => "symbol"
  | .type => "type"
  | .stringLiteral => "string literal"

/-- Rules that hold for every program that was accepted. -/
inductive Invariant
  /-- Every list of instructions that was opened is closed again. -/
  | closedLists (count : Nat) (function : String)
  /-- Layouts can be computed. -/
  | layouts (error : RegistryError)
  /-- A function with a result returns on every path. -/
  | returns (function : String)
  /-- A jump starts in a block with a label. -/
  | openBlock (function : String)
  /-- An expression whose value is used has one. -/
  | hasValue (span : Span) (function : String)
  /-- Values are loaded through pointers. -/
  | loadsPointer (operand : String)
  | isLiteral (name : String)
  | isPlace (span : Span)
  /-- Arguments that are pointers are not stored anywhere. -/
  | pointerArgument (name : String)
  | hasStorage (kind name : String)
  | isField (name : String)
  | isFunction (name : String)
  /-- Functions are not stored. -/
  | storesFunction (name : String)
  /-- Every type is resolved. -/
  | resolvedType
  /-- A rule in the words of whoever reports it. -/
  | described (text : String)
  deriving DecidableEq, Repr, Inhabited

/-- What is said when the rule is broken. -/
def Invariant.message : Invariant → String
  | .closedLists count function =>
    toString count ++ " instruction lists left open in function '" ++ function ++ "'"
  | .layouts error => error.message
  | .returns function =>
    "function '" ++ function ++ "' falls off its end without a return value"
  | .openBlock function => "no open basic block in function '" ++ function ++ "'"
  | .hasValue span function =>
    "expression at " ++ span.text ++ " has no value in function '" ++ function ++ "'"
  | .loadsPointer operand => "load through non-pointer " ++ operand
  | .isLiteral name => "'" ++ name ++ "' is not a string literal"
  | .isPlace span => "expression at " ++ span.text ++ " is not a place"
  | .pointerArgument name => "pointer argument '" ++ name ++ "' has no storage"
  | .hasStorage kind name => kind ++ " '" ++ name ++ "' has no storage"
  | .isField name => "'" ++ name ++ "' is not a field"
  | .isFunction name => "'" ++ name ++ "' is not a function"
  | .storesFunction name => "function '" ++ name ++ "' used as a storage type"
  | .resolvedType => "unresolved type reached code generation"
  | .described text => text

/-- A broken promise between two stages. -/
inductive InternalError
  /-- A variable without an address; `known` lists where it is known to be. -/
  | missingAddress (symbol function known : String)
  | unboundNode (facet : Facet) (span : Span)
  | blockStackUnderflow (function : String)
  | missingLayout (className : String)
  | invariant (broken : Invariant)
  deriving DecidableEq, Repr, Inhabited

/-- The wording. -/
def InternalError.message : InternalError → String
  | .missingAddress symbol function known =>
    "no address recorded for '" ++ symbol ++ "' in function '" ++ function
      ++ "' (known locations: [" ++ known ++ "])"
  | .unboundNode facet span =>
    "syntax node at " ++ span.text ++ " has no bound " ++ facet.text
  | .blockStackUnderflow function =>
    "instruction block stack underflow in function '" ++ function ++ "'"
  | .missingLayout name => "class '" ++ name ++ "' has no finalized layout"
  | .invariant broken => broken.message

/-- The wording for the user. -/
def InternalError.report (error : InternalError) : String :=
  "internal compiler error: " ++ error.message

end ClassLang
