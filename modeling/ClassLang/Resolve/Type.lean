import ClassLang.Context

/-!
# Resolving written types

A name in a type is looked up outwards from the scope the type stands in, and must
stand for a class or a struct.  If it does not, that is reported and the type is
`error`.
-/

namespace ClassLang.TypeExpr

/-- The type of a base name. -/
def resolveBase (base : TypeBase) (scope : ScopeId) : Analysis Ty := do
  match base with
  | .primitive p => return .primitive p
  | .named ident =>
    let ctx ← get
    match ctx.scopes.lookup? scope ident.name with
    | none =>
      Analysis.report (.unresolved ident.name ident.span)
      return .error
    | some id =>
      match ctx.symbols.get? id with
      | some (.classEntry _) => return .classType id
      | some (.structEntry _) => return .structType id
      | some other =>
        Analysis.mismatch (.wrongKind ident.name other.kindName "type") ident.span
        return .error
      | none => return .error

/-- The type that a written type stands for. -/
def resolve (ty : TypeExpr) (scope : ScopeId) : Analysis Ty := do
  match ← resolveBase ty.base scope with
  | .error => return .error
  | base => return base.pointers ty.depth

/-- The type of a variable, a field or a parameter, which cannot be `void`. -/
def resolveStorage (ty : TypeExpr) (scope : ScopeId) (what : String) : Analysis Ty := do
  let resolved ← ty.resolve scope
  if resolved.isVoid then
    Analysis.mismatch (.voidStorage what) ty.span
    return .error
  else
    return resolved

end ClassLang.TypeExpr
