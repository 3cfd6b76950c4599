import ClassLang.Declare
import ClassLang.Lower.Unit
import ClassLang.Render.C
import ClassLang.Render.Llvm
import ClassLang.Resolve.Stmt
import ClassLang.Symbol.Layout
import ClassLang.Syntax.Parser.Decl

/-!
# Compiling

A source is parsed, its names are declared, it is resolved, its classes are laid out,
and code is generated for it.  Each stage runs only if the stages before it found no
error.
-/

namespace ClassLang

/-- The stages that can end a compilation with diagnostics. -/
inductive Stage
  | parse | declaration | resolution
  deriving DecidableEq, Repr, Inhabited

/-- The word for a stage. -/
def Stage.text : Stage → String
  | .parse => "parse"
  | .declaration => "declaration"
  | .resolution => "resolution"

/-- Why there is no code. -/
inductive CompileError
  /-- The source has errors; all diagnostics up to the stage are included. -/
  | diagnostics (stage : Stage) (diagnostics : Diagnostics)
  | internal (error : InternalError)
  deriving Repr, Inhabited

/-- The wording. -/
def CompileError.message : CompileError → String
  | .diagnostics stage ds =>
    stage.text ++ " reported " ++ toString ds.errorCount ++ " error(s)"
  | .internal error => error.report

/-- The code of a unit, and what is known about it. -/
structure Compiled where
  unit : CodeUnit
  context : Context
  deriving Repr, Inhabited

/-- Lays out the classes of a unit. -/
def Context.layOut (ctx : Context) : Option RegistryError × Context :=
  let (error, symbols) := ctx.symbols.finalizeLayouts
  (error, { ctx with symbols })

/-- Stops a compilation whose context has errors. -/
def Context.stopOnErrors (ctx : Context) (stage : Stage) : Except CompileError Unit :=
  if ctx.diagnostics.hasErrors then .error (.diagnostics stage ctx.diagnostics) else .ok ()

/-- Compiles a script. -/
def Script.compile (script : Script) : Except CompileError Compiled := do
  let (_, ctx) := script.declare.run Context.initial
  ctx.stopOnErrors .declaration
  let (_, ctx) := script.resolve.run ctx
  ctx.stopOnErrors .resolution
  match ctx.layOut with
  | (some error, _) => .error (.internal (.invariant (.layouts error)))
  | (none, ctx) =>
    let ctx := ctx.internLiterals script
    match ctx.unitCode script with
    | .ok unit => .ok ⟨unit, ctx⟩
    | .error error => .error (.internal error)

/-- Compiles a source. -/
def compile (source : String) : Except CompileError Compiled :=
  match parse source with
  | .ok script => script.compile
  | .error errors => .error (.diagnostics .parse (.ofSyntaxErrors errors))

/-- The languages that code can be written in. -/
inductive Target
  | llvm | c
  deriving DecidableEq, Repr, Inhabited

namespace Target

/-- The word for a target. -/
def text : Target → String
  | .llvm => "llvm"
  | .c => "c"

/-- Writes a unit in a language. -/
def render : Target → CodeUnit → String
  | .llvm => Llvm.render
  | .c => C.render

end Target

end ClassLang
